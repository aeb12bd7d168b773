import ThreeAddress.Descriptor
import ThreeAddress.Proofs.Results

/-!
# Descriptors and what they stand for

`readOne` takes just the descriptor of a type from the front of a text: what `encode` writes is read back whatever follows, and whatever is
read was written so. With that, field descriptors and the types that have one are inverse to each other, and a method descriptor is read
back unless a closing parenthesis stands in its result: the parameters end at the last parenthesis, also where this one belongs to the name
of a class.
-/

namespace ThreeAddress

variable {s : String} {cs rest : List Char} {a b c : Char} {t element : ValueType} {ts : List ValueType} {n : Nat}

/-- Where a text goes on behind the characters other than one, it goes on with that one. -/
theorem cut_of_dropWhile (h : cs.dropWhile (· != a) = c :: rest) :
    c = a ∧ a ∉ cs.takeWhile (· != a) ∧ cs = cs.takeWhile (· != a) ++ a :: rest := by
  have hc : c = a := by
    have hstop := List.head?_dropWhile_not (· != a) cs
    rw [h] at hstop
    simpa using hstop
  subst hc
  refine ⟨rfl, fun hmem => ?_, ?_⟩
  · simpa using List.all_eq_true.mp List.all_takeWhile c hmem
  · rw [← h, List.takeWhile_append_dropWhile]

/-- A text with one character in the place of another. -/
abbrev replaced (a b : Char) (s : String) : String :=
  s.map fun c => if c = a then b else c

theorem replaced_replaced (h : b ∉ s.toList) : replaced b a (replaced a b s) = s := by
  rw [← String.toList_inj, String.toList_map, String.toList_map, List.map_map]
  refine (List.map_congr_left fun c hc => ?_).trans (List.map_id _)
  have hb : c ≠ b := fun hc' => h (hc' ▸ hc)
  by_cases ha : c = a <;> simp [ha, hb]

theorem mem_replaced (ha : c ≠ a) (hb : c ≠ b) : c ∈ (replaced a b s).toList ↔ c ∈ s.toList := by
  rw [String.toList_map, List.mem_map]
  constructor
  · rintro ⟨d, hd, rfl⟩
    by_cases h : d = a
    · rw [if_pos h] at hb
      exact absurd rfl hb
    · rwa [if_neg h]
  · intro hc
    exact ⟨c, hc, if_neg ha⟩

theorem not_mem_replaced (h : a ≠ b) : a ∉ (replaced a b s).toList := by
  rw [String.toList_map, List.mem_map]
  rintro ⟨c, -, hc⟩
  split at hc
  · exact h hc.symm
  · contradiction

namespace ValueType

/-- An array type. -/
def isArray : ValueType → Bool
  | .array _ _ => true
  | _ => false

/-- A type that a descriptor can write: one that is known, with names that no semicolon cuts short and that have dots for slashes, and with
arrays of 1 to 255 dimensions over what is not an array. -/
def HasDescriptor : ValueType → Prop
  | .object name => ';' ∉ name.toList ∧ '/' ∉ name.toList
  | .array element dims => 1 ≤ dims ∧ dims ≤ maxDims ∧ element.isArray = false ∧ element.HasDescriptor
  | .unknown => False
  | _ => True

/-! ## Names of classes -/

theorem binaryName_internalName {name : String} (h : '/' ∉ name.toList) : binaryName (internalName name) = name :=
  replaced_replaced h

theorem internalName_binaryName {name : String} (h : '.' ∉ name.toList) : internalName (binaryName name) = name :=
  replaced_replaced h

/-- A character other than the dot and the slash is in both names of a class or in neither. -/
theorem mem_internalName {name : String} (hdot : c ≠ '.') (hslash : c ≠ '/') : c ∈ (internalName name).toList ↔ c ∈ name.toList :=
  mem_replaced hdot hslash

theorem mem_binaryName {name : String} (hdot : c ≠ '.') (hslash : c ≠ '/') : c ∈ (binaryName name).toList ↔ c ∈ name.toList :=
  mem_replaced hslash hdot

theorem dot_not_mem_internalName (name : String) : '.' ∉ (internalName name).toList :=
  not_mem_replaced (by decide)

theorem slash_not_mem_binaryName (name : String) : '/' ∉ (binaryName name).toList :=
  not_mem_replaced (by decide)

/-! ## One type -/

theorem readOne_letter (h : ofLetter? c = some t) : readOne (c :: rest) = .ok (t, rest) := by
  rw [readOne, h]
  all_goals (rintro rfl; cases h)

/-- The name of a class ends at the first semicolon. -/
theorem readOne_class (h : ';' ∉ cs) : readOne ('L' :: (cs ++ ';' :: rest)) = .ok (ofName (String.ofList cs), rest) := by
  have hall : ∀ c ∈ cs, (c != ';') = true := by
    intro c hc
    rw [bne_iff_ne]
    exact fun hc' => h (hc' ▸ hc)
  rw [readOne, List.dropWhile_append_of_pos hall, List.takeWhile_append_of_pos hall]
  simp

/-- What is in brackets is read before them. -/
theorem readOne_bracket : readOne ('[' :: cs) = (do
    let (element, rest) ← readOne cs
    return (← element.arrayOf 1, rest)) := by
  rw [readOne]

/-- An element in brackets is read as an array with as many dimensions. -/
theorem readOne_brackets (h : readOne cs = .ok (element, rest)) (helement : element.isArray = false) (hn : n + 1 ≤ maxDims) :
    readOne (List.replicate (n + 1) '[' ++ cs) = .ok (.array element (n + 1), rest) := by
  induction n with
  | zero =>
    rw [List.replicate_one, List.singleton_append, readOne_bracket, h]
    cases element <;> first | rfl | cases helement
  | succ n ih =>
    rw [List.replicate_succ, List.cons_append, readOne_bracket, ih (Nat.le_of_succ_le hn)]
    simp only [bind, Except.bind, arrayOf, arrayOf?_array hn, pure, Except.pure]

/-- What is written is read back, whatever follows it. -/
theorem readOne_encode (h : t.HasDescriptor) : readOne (t.encode ++ rest) = .ok (t, rest) := by
  induction t with
  | object name =>
    rw [encode, List.append_assoc, List.cons_append, List.singleton_append, readOne_class, String.ofList_toList, ofName,
      binaryName_internalName h.2]
    rw [mem_internalName (by decide) (by decide)]
    exact h.1
  | array element dims ih =>
    obtain ⟨hpos, hmax, helement, h⟩ := h
    obtain ⟨n, rfl⟩ := Nat.exists_eq_succ_of_ne_zero (Nat.ne_of_gt hpos)
    rw [encode, List.append_assoc]
    exact readOne_brackets (ih h) helement hmax
  | unknown => exact h.elim
  | _ => exact readOne_letter rfl

/-- A letter writes the type that it stands for. -/
theorem encode_of_letter (h : ofLetter? c = some t) : t.HasDescriptor ∧ t.encode = [c] := by
  unfold ofLetter? at h
  split at h <;> first | (cases h; exact ⟨trivial, rfl⟩) | cases h

/-- One bracket more writes one dimension more. -/
theorem encode_of_arrayOf (h : element.arrayOf 1 = .ok t) (helement : element.HasDescriptor) :
    t.HasDescriptor ∧ t.encode = '[' :: element.encode := by
  cases element with
  | array inner dims =>
    obtain ⟨hpos, -, hinner⟩ := helement
    simp only [arrayOf, arrayOf?] at h
    by_cases hmax : dims + 1 ≤ maxDims
    · rw [if_pos hmax] at h
      cases h
      exact ⟨⟨by omega, hmax, hinner⟩, by rw [encode, encode, List.replicate_succ, List.cons_append]⟩
    · rw [if_neg hmax] at h
      cases h
  | _ =>
    cases h
    exact ⟨⟨by decide, by decide, rfl, helement⟩, rfl⟩

/-- What is read was written so, if no name in it has a dot. -/
theorem encode_of_readOne (h : readOne cs = .ok (t, rest)) (hdot : '.' ∉ cs) : t.HasDescriptor ∧ cs = t.encode ++ rest := by
  fun_induction readOne cs generalizing t rest with
  | case1 => cases h
  | case2 cs ih =>
    simp only [bind_eq_ok, pure_eq_ok, Prod.mk.injEq] at h
    obtain ⟨⟨element, r⟩, hread, _, harray, rfl, rfl⟩ := h
    obtain ⟨helement, rfl⟩ := ih hread fun h => hdot (List.mem_cons_of_mem _ h)
    obtain ⟨ht, hencode⟩ := encode_of_arrayOf harray helement
    exact ⟨ht, by rw [hencode, List.cons_append]⟩
  | case3 cs c r hdrop =>
    cases h
    obtain ⟨rfl, hname, hcs⟩ := cut_of_dropWhile hdrop
    have hdot' : '.' ∉ (String.ofList (cs.takeWhile (· != ';'))).toList := fun hmem =>
      hdot (List.mem_cons_of_mem _ ((List.takeWhile_sublist _).mem (String.toList_ofList ▸ hmem)))
    refine ⟨⟨?_, slash_not_mem_binaryName _⟩, ?_⟩
    · rw [mem_binaryName (by decide) (by decide), String.toList_ofList]
      exact hname
    · rw [ofName, encode, internalName_binaryName hdot', String.toList_ofList, List.append_assoc, List.cons_append,
        List.singleton_append, ← hcs]
  | case4 => cases h
  | case5 c cs _ _ t' hletter =>
    cases h
    obtain ⟨ht, hencode⟩ := encode_of_letter hletter
    exact ⟨ht, by rw [hencode, List.singleton_append]⟩
  | case6 => cases h

/-- A descriptor has no dot. -/
theorem dot_not_mem_encode (t : ValueType) : '.' ∉ t.encode := by
  induction t with
  | object name =>
    have hname := dot_not_mem_internalName name
    simp [encode, hname]
  | array element dims ih => simp [encode, ih]
  | _ => decide

/-! ## Field descriptors -/

theorem ofDescriptor_eq_ok : ofDescriptor s = .ok t ↔ readOne s.toList = .ok (t, []) := by
  rw [ofDescriptor, bind_eq_ok]
  constructor
  · rintro ⟨⟨t', rest⟩, hread, h⟩
    cases rest with
    | nil => cases h; exact hread
    | cons c rest => cases h
  · intro h
    exact ⟨_, h, rfl⟩

theorem ofDescriptor_descriptor (h : t.HasDescriptor) : ofDescriptor t.descriptor = .ok t := by
  rw [ofDescriptor_eq_ok, descriptor, String.toList_ofList, ← List.append_nil t.encode]
  exact readOne_encode h

theorem descriptor_of_ofDescriptor (h : ofDescriptor s = .ok t) (hdot : '.' ∉ s.toList) : t.HasDescriptor ∧ t.descriptor = s := by
  obtain ⟨ht, hs⟩ := encode_of_readOne (ofDescriptor_eq_ok.mp h) hdot
  rw [List.append_nil] at hs
  exact ⟨ht, by rw [descriptor, ← hs, String.ofList_toList]⟩

/-- Types and field descriptors are inverse to each other: a type that has a descriptor is what its descriptor is read as; and a text without
a dot is read only as a type that has a descriptor, which is the text, and refused if it is the descriptor of no such type. -/
theorem descriptors_inverse :
    (∀ t : ValueType, t.HasDescriptor → ofDescriptor t.descriptor = .ok t) ∧
    ∀ s : String, '.' ∉ s.toList →
      (∀ t, ofDescriptor s = .ok t → t.descriptor = s ∧ t.HasDescriptor) ∧
      ((∃ e, ofDescriptor s = .error e) ↔ ¬ ∃ t : ValueType, t.HasDescriptor ∧ t.descriptor = s) := by
  refine ⟨fun t ht => ofDescriptor_descriptor ht, fun s hdot => ⟨fun t h => (descriptor_of_ofDescriptor h hdot).symm, ?_⟩⟩
  constructor
  · rintro ⟨e, he⟩ ⟨t, ht, rfl⟩
    rw [ofDescriptor_descriptor ht] at he
    cases he
  · intro hnone
    cases h : ofDescriptor s with
    | error e => exact ⟨e, rfl⟩
    | ok t => exact absurd ⟨t, descriptor_of_ofDescriptor h hdot⟩ hnone

/-- An array of 255 dimensions over a class; an array of two over it, read; and a text in which something follows the type. -/
theorem descriptors_inverse_deepest :
    ofDescriptor (array (object "a.日本") 255).descriptor = .ok (array (object "a.日本") 255) ∧
    (array (object "a.日本") 2).descriptor = "[[La/日本;" ∧
    ¬ ∃ t : ValueType, t.HasDescriptor ∧ t.descriptor = "[I[" := by
  refine ⟨descriptors_inverse.1 _ ⟨by decide, by decide, rfl, by decide, by decide⟩, ?_, ?_⟩
  · exact ((descriptors_inverse.2 "[[La/日本;" (by decide)).1 _ (by cbv)).1
  · exact (descriptors_inverse.2 "[I[" (by decide)).2.mp ⟨.trailing "[I[", by cbv⟩

/-! ## Types one after another -/

theorem readAll_of_readOne (h : readOne cs = .ok (t, rest)) : readAll cs = (readAll rest).map (t :: ·) := by
  have hcs : cs ≠ [] := by
    rintro rfl
    cases h
  rw [readAll, if_neg (by simpa using hcs)]
  split
  · rename_i he
    rw [h] at he
    cases he
  · rename_i t' rest' hok
    rw [h] at hok
    cases hok
    rfl

theorem readAll_encode (h : ∀ t ∈ ts, t.HasDescriptor) : readAll (ts.flatMap encode) = .ok ts := by
  induction ts with
  | nil => rw [List.flatMap_nil, readAll, List.isEmpty_nil, if_pos rfl]
  | cons t ts ih =>
    rw [List.flatMap_cons, readAll_of_readOne (readOne_encode (h t List.mem_cons_self)),
      ih fun t ht => h t (List.mem_cons_of_mem _ ht)]
    rfl

theorem encode_of_readAll (h : readAll cs = .ok ts) (hdot : '.' ∉ cs) : (∀ t ∈ ts, t.HasDescriptor) ∧ cs = ts.flatMap encode := by
  fun_induction readAll cs generalizing ts with
  | case1 cs hempty =>
    cases h
    exact ⟨nofun, List.isEmpty_iff.mp hempty⟩
  | case2 => cases h
  | case3 cs _ t rest hread _ ih =>
    obtain ⟨ht, rfl⟩ := encode_of_readOne hread hdot
    cases hrest : readAll rest with
    | error e =>
      rw [hrest] at h
      cases h
    | ok us =>
      rw [hrest] at h
      cases h
      obtain ⟨hus, hus'⟩ := ih hrest fun hmem => hdot (List.mem_append_right _ hmem)
      exact ⟨List.forall_mem_cons.mpr ⟨ht, hus⟩, by rw [List.flatMap_cons, ← hus']⟩

end ValueType

/-! ## Method descriptors -/

namespace Signature

variable {front : List Char} {sig : Signature}

/-- A text is split at its last closing parenthesis. -/
theorem splitAtLastParen_eq_some : splitAtLastParen cs = some (front, rest) ↔ cs = front ++ ')' :: rest ∧ ')' ∉ rest := by
  unfold splitAtLastParen
  constructor
  · intro h
    split at h
    · cases h
    · rename_i c before hdrop
      cases h
      obtain ⟨rfl, hnot, hcs⟩ := cut_of_dropWhile hdrop
      refine ⟨?_, by rwa [List.mem_reverse]⟩
      have hcs' := congrArg List.reverse hcs
      rwa [List.reverse_reverse, List.reverse_append, List.reverse_cons, List.append_assoc, List.singleton_append] at hcs'
  · rintro ⟨rfl, hnot⟩
    have hall : ∀ c ∈ rest.reverse, (c != ')') = true := by
      intro c hc
      rw [bne_iff_ne]
      exact fun hc' => hnot (hc' ▸ List.mem_reverse.mp hc)
    rw [List.reverse_append, List.reverse_cons, List.append_assoc, List.dropWhile_append_of_pos hall,
      List.takeWhile_append_of_pos hall]
    simp

/-- A signature all of whose types have descriptors. -/
def HasDescriptor (sig : Signature) : Prop :=
  (∀ t ∈ sig.params, t.HasDescriptor) ∧ sig.ret.HasDescriptor

theorem ofDescriptor_eq_ok : ofDescriptor s = .ok sig ↔ ∃ params ret, s.toList = '(' :: (params ++ ')' :: ret) ∧ ')' ∉ ret ∧
    ValueType.readAll params = .ok sig.params ∧ ValueType.ofDescriptor (String.ofList ret) = .ok sig.ret := by
  constructor
  · intro h
    unfold ofDescriptor at h
    split at h
    · rename_i cs hs
      split at h
      · cases h
      · rename_i params ret hsplit
        obtain ⟨rfl, hnot⟩ := splitAtLastParen_eq_some.mp hsplit
        simp only [bind_eq_ok, pure_eq_ok] at h
        obtain ⟨ps, hps, r, hr, rfl⟩ := h
        exact ⟨params, ret, hs, hnot, hps, hr⟩
    · cases h
  · rintro ⟨params, ret, hs, hnot, hparams, hret⟩
    simp only [ofDescriptor, hs, splitAtLastParen_eq_some.mpr ⟨rfl, hnot⟩, hparams, hret]
    rfl

/-- A text without a dot is read as a signature exactly if it is the descriptor of the signature and no closing parenthesis stands in the
descriptor of its result: the parameters are taken to end at the last parenthesis. -/
theorem ofDescriptor_iff (hdot : '.' ∉ s.toList) :
    ofDescriptor s = .ok sig ↔ sig.HasDescriptor ∧ ')' ∉ sig.ret.encode ∧ sig.descriptor = s := by
  constructor
  · intro h
    obtain ⟨params, ret, hs, hnot, hreadParams, hreadRet⟩ := ofDescriptor_eq_ok.mp h
    have hdots : '.' ∉ params ∧ '.' ∉ ret := by simpa [hs] using hdot
    obtain ⟨hparams, rfl⟩ := ValueType.encode_of_readAll hreadParams hdots.1
    obtain ⟨hret, hencode⟩ := ValueType.descriptor_of_ofDescriptor hreadRet (by rw [String.toList_ofList]; exact hdots.2)
    obtain rfl : sig.ret.encode = ret := String.ofList_injective hencode
    refine ⟨⟨hparams, hret⟩, hnot, ?_⟩
    rw [← String.toList_inj, hs, descriptor, String.toList_ofList]
    rfl
  · rintro ⟨⟨hparams, hret⟩, hnot, rfl⟩
    refine ofDescriptor_eq_ok.mpr ⟨sig.params.flatMap ValueType.encode, sig.ret.encode, ?_, hnot, ValueType.readAll_encode hparams, ?_⟩
    · rw [descriptor, String.toList_ofList]
      rfl
    · exact ValueType.ofDescriptor_descriptor hret

/-- A signature is read back from its descriptor unless a closing parenthesis stands in the descriptor of its result. -/
theorem ofDescriptor_descriptor_iff (h : sig.HasDescriptor) : ofDescriptor sig.descriptor = .ok sig ↔ ')' ∉ sig.ret.encode := by
  have hparams : ∀ t ∈ sig.params, '.' ∉ t.encode := fun t _ => t.dot_not_mem_encode
  have hdot : '.' ∉ sig.descriptor.toList := by
    simpa [descriptor] using ⟨hparams, sig.ret.dot_not_mem_encode⟩
  rw [ofDescriptor_iff hdot]
  simp [h]

example : ofDescriptor "()La)b;" = .error (.unexpected ')') := by cbv

example : ofDescriptor "(La)b;V)V" = .ok ⟨[.object "a)b", .void], .void⟩ := by cbv

end Signature
end ThreeAddress
