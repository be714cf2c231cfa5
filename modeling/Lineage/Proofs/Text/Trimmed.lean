import Lineage.Text.Blank
import Lineage.Text.Cut

namespace Lineage.Text

variable {c mark : Char} {cs gap before after : List Char}

def Gap (cs : List Char) : Prop := ∀ c ∈ cs, isBlank c = true

-- named, because what is found for all characters would go through all of them
instance : Decidable (Gap cs) := List.decidableBAll _ cs

theorem gap_nil : Gap [] := nofun

theorem Gap.append (left : Gap before) (right : Gap after) : Gap (before ++ after) := by
  intro c there
  rcases List.mem_append.mp there with there | there
  · exact left c there
  · exact right c there

theorem Gap.not_mem (blank : Gap gap) (visible : isBlank c = false) : c ∉ gap := by
  intro there
  rw [blank c there] at visible
  cases visible

theorem not_mem_between (visible : isBlank mark = false) (absent : mark ∉ cs)
    (blankBefore : Gap before) (blankAfter : Gap after) : mark ∉ before ++ cs ++ after := by
  simp only [List.mem_append, not_or]
  exact ⟨⟨blankBefore.not_mem visible, absent⟩, blankAfter.not_mem visible⟩

theorem Gap.dropWhile_append (blank : Gap gap) (cs : List Char) :
    (gap ++ cs).dropWhile isBlank = cs.dropWhile isBlank :=
  List.dropWhile_append_of_pos blank

theorem Gap.dropWhile (blank : Gap gap) : gap.dropWhile isBlank = [] := by
  have none := blank.dropWhile_append []
  rw [List.append_nil] at none
  exact none

theorem Gap.reverse (blank : Gap gap) : Gap gap.reverse :=
  fun c there => blank c (List.mem_reverse.mp there)

theorem gap_takeWhile (cs : List Char) : Gap (cs.takeWhile isBlank) :=
  List.all_eq_true.mp List.all_takeWhile

theorem dropWhile_visible (visible : isBlank c = false) (before after : List Char) :
    (before ++ c :: after).dropWhile isBlank = before.dropWhile isBlank ++ c :: after := by
  rw [List.dropWhile_append]
  split
  · rename_i nothing
    rw [List.isEmpty_iff.mp nothing, List.dropWhile_cons_of_neg (Bool.eq_false_iff.mp visible)]
    rfl
  · rfl

theorem trim_gap_append (blank : Gap gap) (cs : List Char) : trim (gap ++ cs) = trim cs := by
  rw [trim, blank.dropWhile_append, trim]

theorem trim_append_gap (blank : Gap gap) (cs : List Char) : trim (cs ++ gap) = trim cs := by
  unfold trim
  rw [List.dropWhile_append]
  split
  · rename_i nothing
    rw [blank.dropWhile, List.isEmpty_iff.mp nothing]
  · rw [List.reverse_append, blank.reverse.dropWhile_append]

theorem trim_visible (visible : isBlank c = false) (before : List Char) :
    trim (before ++ [c]) = before.dropWhile isBlank ++ [c] := by
  rw [trim, dropWhile_visible visible, List.reverse_append, List.reverse_singleton,
    List.singleton_append, List.dropWhile_cons_of_neg (Bool.eq_false_iff.mp visible),
    List.reverse_cons, List.reverse_reverse]

/-- Only what is before the first of two marks and after the second one is trimmed. -/
theorem trim_marked {opening closing : Char} (visible : isBlank opening = false)
    (visibleToo : isBlank closing = false) (before inner : List Char) (blank : Gap after) :
    trim (before ++ opening :: (inner ++ closing :: after)) =
      before.dropWhile isBlank ++ opening :: (inner ++ [closing]) := by
  have split : before ++ opening :: (inner ++ closing :: after) =
      before ++ opening :: inner ++ [closing] ++ after := by simp
  rw [split, trim_append_gap blank, trim_visible visibleToo, dropWhile_visible visible,
    List.append_assoc]
  rfl

theorem trim_dropWhile (cs : List Char) : trim (cs.dropWhile isBlank) = trim cs := by
  have whole := trim_gap_append (gap_takeWhile cs) (cs.dropWhile isBlank)
  rw [List.takeWhile_append_dropWhile] at whole
  exact whole.symm

/-- A text is what is left of it when it is trimmed, between blanks. -/
theorem exists_gaps (cs : List Char) :
    ∃ before after, Gap before ∧ Gap after ∧ cs = before ++ trim cs ++ after := by
  let rest := cs.dropWhile isBlank
  refine ⟨cs.takeWhile isBlank, (rest.reverse.takeWhile isBlank).reverse, gap_takeWhile cs,
    (gap_takeWhile _).reverse, ?_⟩
  have split : trim cs ++ (rest.reverse.takeWhile isBlank).reverse = rest := by
    rw [trim, ← List.reverse_append, List.takeWhile_append_dropWhile, List.reverse_reverse]
  rw [List.append_assoc, split, List.takeWhile_append_dropWhile]

def Trimmed (cs : List Char) : Prop := trim cs = cs

instance : Decidable (Trimmed cs) := inferInstanceAs (Decidable (trim cs = cs))

theorem trimmed_of_ends (first : ∀ c ∈ cs.head?, isBlank c = false)
    (last : ∀ c ∈ cs.getLast?, isBlank c = false) : Trimmed cs := by
  have stays {cs : List Char} (first : ∀ c ∈ cs.head?, isBlank c = false) :
      cs.dropWhile isBlank = cs := by
    cases cs with
    | nil => rfl
    | cons c rest => exact List.dropWhile_cons_of_neg (Bool.eq_false_iff.mp (first c rfl))
  rw [Trimmed, trim, stays first, stays, List.reverse_reverse]
  rwa [List.head?_reverse]

theorem trimmed_trim (cs : List Char) : Trimmed (trim cs) := by
  obtain ⟨before, after, blankBefore, blankAfter, whole⟩ := exists_gaps cs
  calc trim (trim cs)
    _ = trim (before ++ trim cs ++ after) := by
      rw [trim_append_gap blankAfter, trim_gap_append blankBefore]
    _ = trim cs := by rw [← whole]

theorem Trimmed.trim_between (trimmed : Trimmed cs) (blankBefore : Gap before)
    (blankAfter : Gap after) : trim (before ++ cs ++ after) = cs := by
  rw [trim_append_gap blankAfter, trim_gap_append blankBefore, trimmed]

end Lineage.Text
