/-
  Webstore.Uhd

  The server as `webstore_start` sets it up: the URL and upload limits and the
  table of nodes.
-/
import Webstore.Node
import Webstore.Searest

namespace Webstore

open Webstore.Libc Webstore.Sched

/-- A node as the framework calls it: the user data is the runtime data. -/
def nodeCallback (node : Bytes → Int → Srci → Wsrt → Prog Rai (Bytes × Srci)) (rt : Wsrt) :
    NodeCallback := fun url urllen ri => do
  let (page, ri) ← node url urllen ri rt
  return (some page, ri)

/-- `webstore_start`: the server it starts. -/
def webstoreStart (rt : Wsrt) : Sri :=
  let ws := searestNew (8 + 3) (128 + 11) (toSizeT rt.maxPostDataSize)
  let ws := searestNodeAdd ws (ascii "/config/") (nodeCallback nodecfg rt)
  let ws := searestNodeAdd ws (ascii "/store/128/") (nodeCallback node128 rt)
  let ws := searestNodeAdd ws (ascii "/store/160/") (nodeCallback node160 rt)
  let ws := searestNodeAdd ws (ascii "/store/224/") (nodeCallback node224 rt)
  let ws := searestNodeAdd ws (ascii "/store/256/") (nodeCallback node256 rt)
  let ws := searestNodeAdd ws (ascii "/store/384/") (nodeCallback node384 rt)
  let ws := searestNodeAdd ws (ascii "/store/512/") (nodeCallback node512 rt)
  ws

/-- The callbacks `webstore_start` registers. -/
def callbacks : List (Bytes → Int → Srci → Wsrt → Prog Rai (Bytes × Srci)) :=
  [nodecfg, node128, node160, node224, node256, node384, node512]

/-- Every node is enabled and runs one of the callbacks. -/
theorem callback_of_mem {rt : Wsrt} {n : Srn} (hn : n ∈ (webstoreStart rt).nodelist) :
    n.disabled = false ∧ ∃ node ∈ callbacks, n.cb = nodeCallback node rt := by
  have hlist : (webstoreStart rt).nodelist.map (fun n => (n.disabled, n.cb)) =
      callbacks.map (fun node => (false, nodeCallback node rt)) := rfl
  have hmem : (n.disabled, n.cb) ∈ (webstoreStart rt).nodelist.map fun n => (n.disabled, n.cb) :=
    List.mem_map_of_mem hn
  rw [hlist] at hmem
  obtain ⟨node, hnode, heq⟩ := List.mem_map.mp hmem
  obtain ⟨h₁, h₂⟩ := Prod.mk.inj heq
  exact ⟨h₁.symm, node, hnode, h₂.symm⟩

end Webstore
