import Mathlib.Data.Set.List
import ThreeAddress.ClassFile.Attribute
import ThreeAddress.Proofs.Results

/-!
# Attributes and their formats

A word is two bytes, so the bytes of words read back as these words, and only whole words are read. A table is read if and only if its bytes
are a count and exactly that many entries, and then these entries are read: `LineEntry.readTable_eq_ok`, `VariableEntry.readTable_eq_ok`.
Bootstrap methods are read from the front. What is read is what the bytes spell behind their count, but any words may follow, and these
nothing reads (`BootstrapEntry.readAll_eq_ok`).
-/

namespace ThreeAddress.ClassFile

/-- Each of the numbers fits into two bytes. -/
def AreWords (ws : List Nat) : Prop :=
  ∀ w ∈ ws, w < 65536

variable {ws rest : List Nat} {bytes : List UInt8} {w n : Nat}

/-! ## Words -/

theorem areWords_cons : AreWords (w :: ws) ↔ w < 65536 ∧ AreWords ws :=
  List.forall_mem_cons

/-- The two bytes of a word are its quotient and its remainder by 256. -/
theorem value_wordBytes (h : w < 65536) : (UInt8.ofNat (w / 256)).toNat * 256 + (UInt8.ofNat w).toNat = w := by
  simp only [UInt8.toNat_ofNat']
  omega

/-- Two bytes are those of the word that they make. -/
theorem wordBytes_value (a b : UInt8) : wordBytes (a.toNat * 256 + b.toNat) = [a, b] := by
  have ha := a.toNat_lt
  have hb := b.toNat_lt
  have high : (a.toNat * 256 + b.toNat) / 256 = a.toNat := by omega
  have low : (UInt8.ofNat (a.toNat * 256 + b.toNat)) = b := by
    apply UInt8.toNat_inj.mp
    rw [UInt8.toNat_ofNat']
    omega
  rw [wordBytes, high, low, UInt8.ofNat_toNat]

theorem length_encodeWords (ws : List Nat) : (encodeWords ws).length = 2 * ws.length := by
  induction ws with
  | nil => rfl
  | cons w ws ih =>
    unfold encodeWords at ih ⊢
    rw [List.flatMap_cons, List.length_append, ih, wordBytes, List.length_cons, List.length_cons, List.length_cons]
    simp only [List.length_nil]
    omega

/-- The bytes of words are read back as these words. -/
theorem pairUp_encodeWords (h : AreWords ws) : pairUp (encodeWords ws) = ws := by
  induction ws with
  | nil => rfl
  | cons w ws ih =>
    obtain ⟨hw, hws⟩ := areWords_cons.mp h
    have both := value_wordBytes hw
    simp only [encodeWords, List.flatMap_cons, wordBytes, List.cons_append, List.nil_append, pairUp] at ih ⊢
    rw [both, ih hws]

/-- What is read from an even number of bytes are words, and they have these bytes. -/
theorem encodeWords_pairUp (h : bytes.length % 2 = 0) : encodeWords (pairUp bytes) = bytes ∧ AreWords (pairUp bytes) := by
  fun_induction pairUp bytes with
  | case1 a b rest ih =>
    obtain ⟨hrest, hwords⟩ := ih (by simp only [List.length_cons] at h; omega)
    have ha := a.toNat_lt
    have hb := b.toNat_lt
    constructor
    · unfold encodeWords at hrest ⊢
      rw [List.flatMap_cons, wordBytes_value, hrest]
      rfl
    · exact areWords_cons.mpr ⟨by omega, hwords⟩
  | case2 bytes hshort =>
    cases bytes with
    | nil => exact ⟨rfl, nofun⟩
    | cons a rest =>
      cases rest with
      | nil => simp at h
      | cons b rest => exact absurd rfl (hshort a b rest)

/-- Bytes are read as words if and only if they are the bytes of these words. -/
theorem words_eq_ok : words bytes = .ok ws ↔ bytes = encodeWords ws ∧ AreWords ws := by
  unfold words
  constructor
  · intro h
    split at h
    · rename_i heven
      cases h
      obtain ⟨hbytes, hwords⟩ := encodeWords_pairUp heven
      exact ⟨hbytes.symm, hwords⟩
    · cases h
  · rintro ⟨rfl, hwords⟩
    rw [length_encodeWords, Nat.mul_mod_right, if_pos rfl, pairUp_encodeWords hwords]

/-! ## Tables -/

theorem pieces_nil (n : Nat) : pieces n [] = [] := by
  unfold pieces
  exact if_pos (Nat.zero_le n)

/-- Entries of one width, put together, come apart into these entries again. -/
theorem pieces_flatten {entries : List (List Nat)} (h : ∀ e ∈ entries, e.length = n + 1) : pieces n entries.flatten = entries := by
  induction entries with
  | nil => exact pieces_nil n
  | cons e entries ih =>
    have he := h e List.mem_cons_self
    have long : ¬ (e :: entries).flatten.length ≤ n := by
      rw [List.flatten_cons, List.length_append]
      omega
    unfold pieces
    rw [if_neg long, List.flatten_cons, List.take_left' he, List.drop_left' he, ih fun e' he' => h e' (List.mem_cons_of_mem e he')]

/-- A list that its pieces can cover is made of them, and they have one width. -/
theorem flatten_pieces {count : Nat} (h : ws.length = count * (n + 1)) :
    (pieces n ws).flatten = ws ∧ (pieces n ws).length = count ∧ ∀ e ∈ pieces n ws, e.length = n + 1 := by
  induction count generalizing ws with
  | zero =>
    have hnil : ws = [] := List.eq_nil_of_length_eq_zero (by omega)
    rw [hnil, pieces_nil]
    exact ⟨rfl, rfl, nofun⟩
  | succ count ih =>
    rw [Nat.succ_mul] at h
    have left : (ws.drop (n + 1)).length = count * (n + 1) := by
      rw [List.length_drop]
      omega
    obtain ⟨hflat, hlength, hwidth⟩ := ih left
    unfold pieces
    rw [if_neg (by omega), List.flatten_cons, hflat, List.take_append_drop, List.length_cons, hlength]
    refine ⟨rfl, rfl, ?_⟩
    intro e he
    rcases List.mem_cons.mp he with rfl | he
    · rw [List.length_take]
      omega
    · exact hwidth e he

theorem length_flatten_of_width {entries : List (List Nat)} (h : ∀ e ∈ entries, e.length = n + 1) :
    entries.flatten.length = entries.length * (n + 1) := by
  induction entries with
  | nil => simp
  | cons e entries ih =>
    rw [List.flatten_cons, List.length_append, ih fun e' he' => h e' (List.mem_cons_of_mem e he'), h e List.mem_cons_self,
      List.length_cons, Nat.succ_mul, Nat.add_comm]

/-- A table is read if and only if it is a count and exactly that many entries. -/
theorem table_eq_ok {entries : List (List Nat)} : table n bytes = .ok entries ↔
    bytes = encodeTable entries ∧ (∀ e ∈ entries, e.length = n + 1) ∧ AreWords (entries.length :: entries.flatten) := by
  unfold table encodeTable
  rw [bind_eq_ok]
  constructor
  · rintro ⟨ws, hwords, h⟩
    obtain ⟨rfl, hsmall⟩ := words_eq_ok.mp hwords
    cases ws with
    | nil => cases h
    | cons count rest =>
      simp only at h
      split at h
      · rename_i hlength
        cases h
        obtain ⟨hflat, hcount, hwidth⟩ := flatten_pieces hlength
        rw [hflat, hcount]
        exact ⟨rfl, hwidth, hsmall⟩
      · cases h
  · rintro ⟨rfl, hwidth, hsmall⟩
    refine ⟨_, words_eq_ok.mpr ⟨rfl, hsmall⟩, ?_⟩
    simp only
    rw [if_pos (length_flatten_of_width hwidth), pieces_flatten hwidth]

/-- A way to read entries from `n + 1` words each, with the way to write them. -/
structure EntryFormat {α : Type} (n : Nat) (ofWords : List Nat → Option α) (toWords : α → List Nat) : Prop where
  reads : ∀ e, ofWords (toWords e) = some e
  width : ∀ e, (toWords e).length = n + 1
  covers : ∀ ws, ws.length = n + 1 → ∃ e, toWords e = ws

/-- Entries are read from a table if and only if it is their count and their words. -/
theorem EntryFormat.table_eq_ok {α : Type} {ofWords : List Nat → Option α} {toWords : α → List Nat} {es : List α}
    (h : EntryFormat n ofWords toWords) : (table n bytes).map (·.filterMap ofWords) = .ok es ↔
      bytes = encodeTable (es.map toWords) ∧ AreWords (es.length :: es.flatMap toWords) := by
  have back : ∀ es : List α, (es.map toWords).filterMap ofWords = es := by
    intro es
    rw [List.filterMap_map, show ofWords ∘ toWords = some from funext h.reads, List.filterMap_some]
  have hmap : (table n bytes).map (·.filterMap ofWords) = .ok es ↔
      ∃ entries, table n bytes = .ok entries ∧ entries.filterMap ofWords = es := map_eq_ok
  rw [hmap]
  constructor
  · rintro ⟨entries, hread, hes⟩
    obtain ⟨rfl, hwidth, hsmall⟩ := ClassFile.table_eq_ok.mp hread
    have written : entries ∈ Set.range (List.map toWords) := by
      rw [Set.range_list_map]
      intro e he
      exact h.covers e (hwidth e he)
    obtain ⟨es', rfl⟩ := written
    obtain rfl := (back es').symm.trans hes
    rw [List.length_map, ← List.flatMap_def] at hsmall
    exact ⟨rfl, hsmall⟩
  · rintro ⟨rfl, hsmall⟩
    refine ⟨es.map toWords, ClassFile.table_eq_ok.mpr ⟨rfl, ?_, ?_⟩, back es⟩
    · intro ws hws
      obtain ⟨e, -, rfl⟩ := List.mem_map.mp hws
      exact h.width e
    · rw [List.length_map, ← List.flatMap_def]
      exact hsmall

namespace LineEntry

/-- A table of line numbers is read if and only if it is a count and exactly that many entries of two words, and then they are read. -/
theorem readTable_eq_ok {es : List LineEntry} :
    readTable bytes = .ok es ↔ bytes = encodeAll es ∧ AreWords (es.length :: es.flatMap toWords) := by
  have format : EntryFormat 1 ofWords toWords :=
    { reads := fun _ => rfl
      width := fun _ => rfl
      covers := fun ws h => by
        obtain ⟨offset, line, rfl⟩ := List.length_eq_two.mp h
        exact ⟨⟨offset, line⟩, rfl⟩ }
  exact format.table_eq_ok

end LineEntry

namespace VariableEntry

/-- A table of local variables is read if and only if it is a count and exactly that many entries of five words, and then they are read. -/
theorem readTable_eq_ok {es : List VariableEntry} :
    readTable bytes = .ok es ↔ bytes = encodeAll es ∧ AreWords (es.length :: es.flatMap toWords) := by
  have format : EntryFormat 4 ofWords toWords :=
    { reads := fun _ => rfl
      width := fun _ => rfl
      covers := fun ws h => by
        match ws, h with
        | [start, length, name, descriptor, slot], _ => exact ⟨⟨start, length, name, descriptor, slot⟩, rfl⟩ }
  exact format.table_eq_ok

end VariableEntry

/-! ## Bootstrap methods -/

namespace BootstrapEntry

variable {es : List BootstrapEntry} {count : Nat}

/-- Bootstrap methods are taken from words if and only if the words begin with them. -/
theorem ofWords_eq_ok : ofWords count ws = .ok es ↔ es.length = count ∧ es.flatMap toWords <+: ws := by
  induction count generalizing ws es with
  | zero =>
    constructor
    · intro h
      cases h
      exact ⟨rfl, List.nil_prefix⟩
    · rintro ⟨hlength, -⟩
      rw [List.eq_nil_of_length_eq_zero hlength]
      rfl
  | succ count ih =>
    constructor
    · intro h
      match ws, h with
      | handle :: n :: rest, h =>
        unfold ofWords at h
        split at h
        · rename_i hn
          rw [bind_eq_ok] at h
          obtain ⟨es', hread, h⟩ := h
          cases h
          obtain ⟨hlength, behind, hbehind⟩ := ih.mp hread
          refine ⟨by rw [List.length_cons, hlength], behind, ?_⟩
          rw [List.flatMap_cons, toWords, List.length_take, Nat.min_eq_left hn, List.cons_append, List.cons_append, List.cons_append,
            List.cons_append, List.append_assoc, hbehind, List.take_append_drop]
        · cases h
    · rintro ⟨hlength, rest, rfl⟩
      obtain ⟨e, es', rfl⟩ := List.exists_cons_of_length_eq_add_one hlength
      have hes : ofWords count (es'.flatMap toWords ++ rest) = .ok es' :=
        ih.mpr ⟨Nat.succ_inj.mp hlength, List.prefix_append _ _⟩
      have enough : e.args.length ≤ (e.args ++ (es'.flatMap toWords ++ rest)).length := by
        rw [List.length_append]
        exact Nat.le_add_right _ _
      rw [List.flatMap_cons, toWords, List.cons_append, List.cons_append, List.cons_append, List.cons_append, List.append_assoc, ofWords,
        if_pos enough, List.drop_left, List.take_left, hes]
      rfl

/-- Bootstrap methods are read if and only if the bytes are those of their count and their words, and of any words behind them. -/
theorem readAll_eq_ok : readAll bytes = .ok es ↔
    ∃ behind, bytes = encodeAll es ++ encodeWords behind ∧ AreWords (es.length :: es.flatMap toWords ++ behind) := by
  have split : ∀ behind, encodeAll es ++ encodeWords behind = encodeWords (es.length :: es.flatMap toWords ++ behind) := by
    intro behind
    unfold encodeAll encodeWords
    rw [List.flatMap_append]
  unfold readAll
  rw [bind_eq_ok]
  constructor
  · rintro ⟨ws, hwords, h⟩
    obtain ⟨rfl, hsmall⟩ := words_eq_ok.mp hwords
    match ws, h with
    | count :: rest, h =>
      obtain ⟨rfl, behind, rfl⟩ := ofWords_eq_ok.mp h
      exact ⟨behind, (split behind).symm, hsmall⟩
  · rintro ⟨behind, rfl, hsmall⟩
    rw [split behind]
    refine ⟨_, words_eq_ok.mpr ⟨rfl, hsmall⟩, ?_⟩
    exact ofWords_eq_ok.mpr ⟨rfl, List.prefix_append _ _⟩

-- The count says that there is no bootstrap method, and a word follows it.
example : readAll [0, 0, 0, 7] = .ok [] := by decide

end BootstrapEntry
end ThreeAddress.ClassFile
