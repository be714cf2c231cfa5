namespace Lineage.Text

def cut (mark : Char) : List Char → Option (List Char × List Char)
  | [] => none
  | c :: rest =>
    if c = mark then some ([], rest)
    else (cut mark rest).map fun (before, after) => (c :: before, after)

def pieces (mark : Char) : List Char → List (List Char)
  | [] => [[]]
  | c :: rest =>
    if c = mark then [] :: pieces mark rest
    else match pieces mark rest with
      | [] => [[c]]
      | piece :: others => (c :: piece) :: others

def dropEnding? (ending cs : List Char) : Option (List Char) :=
  if ending.isSuffixOf cs then some (cs.take (cs.length - ending.length)) else none

def startsWith (opening text : String) : Bool := opening.toList.isPrefixOf text.toList

variable {mark : Char} {ending cs before after : List Char}

theorem dropEnding?_append (ending cs : List Char) : dropEnding? ending (cs ++ ending) = some cs := by
  rw [dropEnding?, if_pos (List.isSuffixOf_iff_suffix.mpr (List.suffix_append cs ending)),
    List.length_append, Nat.add_sub_cancel, List.take_left]

theorem dropEnding?_eq_some_iff : dropEnding? ending cs = some before ↔ cs = before ++ ending := by
  constructor
  · intro h
    by_cases ends : ending.isSuffixOf cs
    · obtain ⟨front, rfl⟩ := List.isSuffixOf_iff_suffix.mp ends
      rw [dropEnding?_append] at h
      cases h
      rfl
    · rw [dropEnding?, if_neg ends] at h
      cases h
  · rintro rfl
    exact dropEnding?_append ending before

theorem dropEnding?_eq_none_iff : dropEnding? ending cs = none ↔ ¬ending <:+ cs := by
  unfold dropEnding?
  rw [← List.isSuffixOf_iff_suffix]
  split <;> simp_all

theorem length_of_dropEnding? (h : dropEnding? ending cs = some before) :
    before.length + ending.length = cs.length := by
  rw [dropEnding?_eq_some_iff.mp h, List.length_append]

theorem cut_eq_none (absent : mark ∉ cs) : cut mark cs = none := by
  induction cs with
  | nil => rfl
  | cons c rest ih =>
    rw [List.mem_cons, not_or] at absent
    rw [cut, if_neg (Ne.symm absent.1), ih absent.2]
    rfl

theorem cut_append (absent : mark ∉ before) :
    cut mark (before ++ mark :: after) = some (before, after) := by
  induction before with
  | nil => exact if_pos rfl
  | cons c rest ih =>
    rw [List.mem_cons, not_or] at absent
    rw [List.cons_append, cut, if_neg (Ne.symm absent.1), ih absent.2]
    rfl

theorem pieces_of_not_mem (absent : mark ∉ cs) : pieces mark cs = [cs] := by
  induction cs with
  | nil => rfl
  | cons c rest ih =>
    rw [List.mem_cons, not_or] at absent
    rw [pieces, if_neg (Ne.symm absent.1), ih absent.2]

theorem pieces_append (absent : mark ∉ before) :
    pieces mark (before ++ mark :: after) = before :: pieces mark after := by
  induction before with
  | nil => exact if_pos rfl
  | cons c rest ih =>
    rw [List.mem_cons, not_or] at absent
    rw [List.cons_append, pieces, if_neg (Ne.symm absent.1), ih absent.2]

theorem cut_eq_some (h : cut mark cs = some (before, after)) :
    cs = before ++ mark :: after ∧ mark ∉ before := by
  induction cs generalizing before with
  | nil => cases h
  | cons c rest ih =>
    unfold cut at h
    split at h
    · rename_i same
      cases h
      simp [same]
    · rename_i differs
      obtain ⟨⟨left, right⟩, inner, eq⟩ := Option.map_eq_some_iff.mp h
      cases eq
      obtain ⟨whole, absent⟩ := ih inner
      refine ⟨by rw [whole]; rfl, ?_⟩
      simp [absent, Ne.symm differs]

end Lineage.Text
