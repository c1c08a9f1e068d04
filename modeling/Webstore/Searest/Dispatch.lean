/-
  Webstore.Searest.Dispatch

  Which node a URL goes to: the first whose root it begins with.
-/
import Webstore.Searest

namespace Webstore

open Webstore.Libc Webstore.Sched

/-- No root holds a NUL: `searest_node_add` stores a C string. -/
def Sri.RootsNulFree (ws : Sri) : Prop := ∀ n ∈ ws.nodelist, NulFree n.root

theorem searestNew_rootsNulFree (urlmin urlmax : Int) (contentmax : Nat) :
    (searestNew urlmin urlmax contentmax).RootsNulFree := by
  intro n hn
  cases hn

/-- A node that is added has a string for its root. -/
theorem Sri.RootsNulFree.add {ws : Sri} (h : ws.RootsNulFree) (rootname : Bytes)
    (func : NodeCallback) : (searestNodeAdd ws rootname func).RootsNulFree := by
  intro n hn
  rcases List.mem_append.mp hn with hn | hn
  · exact h n hn
  · rw [List.mem_singleton.mp hn]
    exact nulFree_cString rootname

variable {ws : Sri} {url : Bytes}

/-- The only node whose root the URL begins with is found. -/
theorem searestNodeFind_some (hws : ws.RootsNulFree) (hurl : NulFree url) {n : Srn}
    (hn : n ∈ ws.nodelist) (hp : n.root <+: url)
    (honly : ∀ n' ∈ ws.nodelist, n'.root <+: url → n' = n) : searestNodeFind ws url = some n := by
  unfold searestNodeFind
  cases hf : ws.nodelist.find? fun n => strncmpEq url n.root n.root.length with
  | none =>
      have := List.find?_eq_none.mp hf n hn
      exact absurd ((strncmpEq_iff hurl (hws n hn)).mpr hp) this
  | some n' =>
      have hmem := List.mem_of_find?_eq_some hf
      have heq : strncmpEq url n'.root n'.root.length = true := by simpa using List.find?_some hf
      have hp' := (strncmpEq_iff hurl (hws n' hmem)).mp heq
      rw [honly n' hmem hp']

theorem searestNodeFind_none (hws : ws.RootsNulFree) (hurl : NulFree url)
    (h : ∀ n ∈ ws.nodelist, ¬ n.root <+: url) : searestNodeFind ws url = none := by
  refine List.find?_eq_none.mpr fun n hn hp => ?_
  exact h n hn ((strncmpEq_iff hurl (hws n hn)).mp hp)

/-- What a node that is enabled is called with. -/
theorem processRequest_found {ri : Srci} {n : Srn} (h : searestNodeFind ws ri.url = some n)
    (hon : n.disabled = false) :
    processRequest ws ri =
      (n.cb (ri.url.drop n.root.length)
        (toInt ((toSizeT ri.urllen : Int) - n.root.length)) ri >>= fun r =>
          .done (r.1, { r.2 with returnPage := r.1 })) := by
  unfold processRequest
  rw [h]
  simp only [hon, Bool.false_eq_true, if_false]
  rfl

/-- A URL without a node is answered 404. -/
theorem processRequest_none {ri : Srci} (h : searestNodeFind ws ri.url = none) :
    processRequest ws ri =
      .done (some (ascii "node not found"),
        { ri with returnCode := httpNotFound, returnPage := some (ascii "node not found") }) := by
  unfold processRequest
  rw [h]
  rfl

end Webstore
