/-
  Webstore.Lists

  Lists in which one element is replaced or added at the end.
-/

namespace Webstore

variable {α β : Type} {g : α → β} {l : List α} {i : Nat} {a b : α}

/-- An element of a longer list was there, or is the new one. -/
theorem getElem?_append_singleton (h : (l ++ [a])[i]? = some b) :
    l[i]? = some b ∨ i = l.length ∧ b = a := by
  rcases Nat.lt_trichotomy i l.length with hlt | rfl | hgt
  · rw [List.getElem?_append_left hlt] at h
    exact .inl h
  · simp only [List.getElem?_concat_length, Option.some.injEq] at h
    exact .inr ⟨rfl, h.symm⟩
  · rw [List.getElem?_eq_none (by simp; omega)] at h
    cases h

/-- After a change at one place, an element is the new one or an old one. -/
theorem getElem?_set_cases {j : Nat} (h : (l.set i a)[j]? = some b) :
    (j = i ∧ b = a) ∨ (j ≠ i ∧ l[j]? = some b) := by
  by_cases hji : j = i
  · subst hji
    have hj : j < l.length := by simpa using (List.getElem?_eq_some_iff.mp h).1
    rw [List.getElem?_set_self hj] at h
    exact .inl ⟨rfl, (Option.some.inj h).symm⟩
  · rw [List.getElem?_set_ne (Ne.symm hji)] at h
    exact .inr ⟨hji, h⟩

/-- Replacing an element by one that looks the same. -/
theorem map_set_same (h : l[i]? = some a) (hg : g b = g a) : (l.set i b).map g = l.map g := by
  induction l generalizing i with
  | nil => cases h
  | cons x l ih =>
      cases i with
      | zero =>
          cases h
          simp [hg]
      | succ i => simpa using ih h

/-- A list with one element replaced, cut at that element. -/
theorem eq_append_of_getElem? (h : l[i]? = some a) :
    ∃ l₁ l₂, l = l₁ ++ a :: l₂ ∧ ∀ b, l.set i b = l₁ ++ b :: l₂ := by
  obtain ⟨hi, rfl⟩ := List.getElem?_eq_some_iff.mp h
  refine ⟨l.take i, l.drop (i + 1), ?_, fun b => ?_⟩
  · rw [← List.drop_eq_getElem_cons hi, List.take_append_drop]
  · exact List.set_eq_take_append_cons_drop.trans (if_pos hi)

variable {p : α → Bool}

/-- An element that comes to pass a filter is one more that passes. -/
theorem filter_set_pos (h : l[i]? = some a) (ha : p a = false) (hb : p b = true) :
    ((l.set i b).filter p).Perm (l.filter p ++ [b]) := by
  obtain ⟨l₁, l₂, rfl, hset⟩ := eq_append_of_getElem? h
  rw [hset]
  simp only [List.filter_append, List.filter_cons, ha, hb, if_true, Bool.false_eq_true, if_false,
    List.append_assoc]
  exact .append_left _ (List.perm_append_singleton b _).symm

theorem filter_set_neg (h : l[i]? = some a) (ha : p a = false) (hb : p b = false) :
    (l.set i b).filter p = l.filter p := by
  obtain ⟨l₁, l₂, rfl, hset⟩ := eq_append_of_getElem? h
  simp [hset, ha, hb]

variable {f : α → α}

/-- A map commutes with a change at one place. -/
theorem map_modify {f' : β → β} (h : ∀ a, g (f a) = f' (g a)) (l : List α) (i : Nat) :
    (l.modify i f).map g = (l.map g).modify i f' := by
  refine List.ext_getElem? fun j => ?_
  rw [List.getElem?_map, List.getElem?_modify, List.getElem?_modify, List.getElem?_map]
  cases l[j]? with
  | none => rfl
  | some a =>
      simp only [Option.map_eq_map, Option.map_some]
      split
      · rw [h]
      · rfl

theorem map_modify_same (h : ∀ a, g (f a) = g a) (l : List α) (i : Nat) :
    (l.modify i f).map g = l.map g := by
  have hid : ∀ a, g (f a) = id (g a) := h
  rw [map_modify hid, List.modify_id]

/-- What a change keeps, all elements keep. -/
theorem forall_mem_modify {P : α → Prop} (hf : ∀ a ∈ l, P (f a)) (h : ∀ a ∈ l, P a) :
    ∀ a ∈ l.modify i f, P a := by
  intro a ha
  obtain ⟨j, hj⟩ := List.mem_iff_getElem?.mp ha
  rw [List.getElem?_modify] at hj
  obtain ⟨b, hb, rfl⟩ := Option.map_eq_some_iff.mp hj
  split
  · exact hf b (List.mem_of_getElem? hb)
  · exact h b (List.mem_of_getElem? hb)

end Webstore
