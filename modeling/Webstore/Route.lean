/-
  Webstore.Route

  Tables that are searched for the first entry whose key a text begins with.
  Such a search finds an entry by its own key only if no entry before it has a
  key that is a part of it; and it does not depend on the order of the entries
  if no key begins with another one.
-/
import Mathlib.Data.List.Pairwise
import Mathlib.Data.List.Nodup

namespace Webstore.Route

variable {α E : Type} (key : E → List α)

/-- No key begins with another one. -/
def PrefixFree (t : List E) : Prop := t.Pairwise fun e e' => ¬ key e <+: key e' ∧ ¬ key e' <+: key e

/-- Of the keys that are proper parts of `text` none stands before `text` itself. -/
def Unshadowed (keys : List (List α)) (text : List α) : Prop :=
  ∀ past k rest, keys = past ++ k :: rest → k <+: text → k ≠ text → text ∈ past

section
variable {key} {t : List E} {text : List α}

/-- Two entries that a text begins with are the same if no key begins with another. -/
theorem PrefixFree.eq_of_prefix (h : PrefixFree key t) {e e' : E} (he : e ∈ t) (he' : e' ∈ t)
    (hp : key e <+: text) (hp' : key e' <+: text) : e = e' := by
  by_contra hne
  have hsymm : Std.Symm fun e e' : E => ¬ key e <+: key e' ∧ ¬ key e' <+: key e :=
    ⟨fun _ _ h => h.symm⟩
  have hapart := List.Pairwise.forall h he he' hne
  rcases List.prefix_or_prefix_of_prefix hp hp' with h | h
  · exact hapart.1 h
  · exact hapart.2 h

end

variable [DecidableEq α]

/-- The first entry whose key the text begins with. -/
def first (t : List E) (text : List α) : Option E := t.find? fun e => decide (key e <+: text)

variable {key} {t : List E} {text : List α}

theorem first_eq_none : first key t text = none ↔ ∀ e ∈ t, ¬ key e <+: text := by
  simp [first]

/-- The entry that is found, and that none before it would do. -/
theorem first_eq_some {e : E} : first key t text = some e ↔
    key e <+: text ∧ ∃ past rest, t = past ++ e :: rest ∧ ∀ e' ∈ past, ¬ key e' <+: text := by
  simp [first, List.find?_eq_some_iff_append]

/-- Entries that keep their keys are found in the same place. -/
theorem first_map {F : Type} (key' : F → List α) (f : E → F) (h : ∀ e, key' (f e) = key e) :
    first key' (t.map f) text = (first key t text).map f := by
  simp only [first, List.find?_map, Function.comp_def, h]

/-- The order of the entries does not matter if no key begins with another. -/
theorem first_perm {t' : List E} (h : PrefixFree key t) (hperm : t'.Perm t) :
    first key t' text = first key t text := by
  cases hf : first key t text with
  | none =>
      rw [first_eq_none] at hf ⊢
      exact fun e he => hf e (hperm.mem_iff.mp he)
  | some e =>
      obtain ⟨hp, past, rest, rfl, -⟩ := first_eq_some.mp hf
      have he : e ∈ past ++ e :: rest := by simp
      cases hf' : first key t' text with
      | none => exact absurd hp (first_eq_none.mp hf' e (hperm.mem_iff.mpr he))
      | some e' =>
          obtain ⟨hp', past', rest', rfl, -⟩ := first_eq_some.mp hf'
          have he' : e' ∈ past' ++ e' :: rest' := by simp
          rw [h.eq_of_prefix (hperm.mem_iff.mp he') he hp' hp]

/-- What is found under a key is the entry with that key, or nothing if there
    is none, exactly when no proper part of the key stands before it. -/
theorem unshadowed_iff : Unshadowed (t.map key) text ↔ ∀ e, first key t text = some e →
    key e = text := by
  constructor
  · intro h e he
    obtain ⟨hp, past, rest, rfl, hpast⟩ := first_eq_some.mp he
    by_contra hne
    have hmem := h (past.map key) (key e) (rest.map key) (by simp) hp hne
    obtain ⟨e', he', heq⟩ := List.mem_map.mp hmem
    exact hpast e' he' (heq ▸ List.prefix_refl _)
  · intro h past k rest hsplit hp hne
    obtain ⟨ps, qs, rfl, rfl, hrest⟩ := List.map_eq_append_iff.mp hsplit
    obtain ⟨e, rs, rfl, rfl, rfl⟩ := List.map_eq_cons_iff.mp hrest
    by_contra hnot
    -- the first match is at `e` or before it, and has the text as its key
    obtain ⟨e', he'⟩ : ∃ e', first key (ps ++ [e]) text = some e' := by
      rw [← Option.isSome_iff_exists, first, List.find?_isSome]
      exact ⟨e, by simp, by simpa using hp⟩
    have hfirst : first key (ps ++ e :: rs) text = some e' := by
      rw [first, List.append_cons, List.find?_append, ← first, he', Option.some_or]
    have hkey := h e' hfirst
    obtain ⟨-, past, rest, heq, -⟩ := first_eq_some.mp he'
    have hmem : e' ∈ ps ++ [e] := by
      rw [heq]
      simp
    rcases List.mem_append.mp hmem with hmem | hmem
    · exact hnot (hkey ▸ List.mem_map_of_mem hmem)
    · rw [List.mem_singleton.mp hmem] at hkey
      exact hne hkey

end Webstore.Route
