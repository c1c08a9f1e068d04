/-
  Webstore.Node.Burn

  Burning after reading.  With `bar` set a GET deletes what it has read, in a
  second command whose reply is never looked at.  A history is read as a
  ledger: every SET that is answered OK brings a new copy of its key into
  being, a GET that is answered with a string reads the copy that is there,
  and a DEL that removes an entry burns it.  As long as Redis refuses no DEL,
  every copy is delivered at most once and burnt only by its reader; after a
  refused DEL the next GET delivers the same copy again.
-/
import Webstore.Node.Rule

namespace Webstore

open Webstore.Libc Webstore.Sched

namespace Burn

/-- One copy passing through the hands of thread `tid`.  Copies are numbered in
    the order of their SETs; `none` is what Redis held at the start. -/
structure Delivery where
  tid : Nat
  key : Bytes
  copy : Option Nat
  body : Bytes
deriving DecidableEq

/-- The copies created so far, the newest one of each key, and which were read
    and burnt by whom. -/
structure Ledger where
  next : Nat
  copy : Bytes → Option Nat
  reads : List Delivery
  burns : List Delivery

def Ledger.empty : Ledger := ⟨0, fun _ => none, [], []⟩

/-- A new copy of `k`. -/
def Ledger.create (l : Ledger) (k : Bytes) : Ledger :=
  { l with next := l.next + 1, copy := Function.update l.copy k (some l.next) }

/-- Thread `i` reads the copy of `k`. -/
def Ledger.read (l : Ledger) (i : Nat) (k str : Bytes) : Ledger :=
  { l with reads := l.reads ++ [⟨i, k, l.copy k, str⟩] }

/-- Thread `i` removes the copy of `k`. -/
def Ledger.burn (l : Ledger) (i : Nat) (k body : Bytes) : Ledger :=
  { l with burns := l.burns ++ [⟨i, k, l.copy k, body⟩] }

/-- Enter one command with its reply. -/
def Ledger.command (l : Ledger) (i : Nat) (pre post : Db) : Cmd → Option Reply → Ledger
  | .set k _ _ _, some (.status _) => l.create k
  | .get k, some (.string str) => l.read i k str
  | .del k, _ =>
      match pre.get k, post.get k with
      | some e, none => l.burn i k e.val
      | _, _ => l
  | _, _ => l

/-- Enter one event. -/
def Ledger.add (l : Ledger) : NodeEvent → Ledger
  | .op i _ (.redisCommand c) v pre post => l.command i pre.db post.db c v
  | _ => l

/-- The ledger of a history. -/
def ledger (h : List NodeEvent) : Ledger := h.foldl Ledger.add .empty

@[simp] theorem ledger_concat (h : List NodeEvent) (ev : NodeEvent) :
    ledger (h ++ [ev]) = (ledger h).add ev := by
  simp [ledger]

/-- Thread `d.tid` has answered 200. -/
def Delivered (s : Sys Rai Server NodeReq Response) (d : Delivery) : Prop :=
  ∃ t page, s.threads[d.tid]? = some t ∧ t.code = .done ⟨httpOk, page⟩

/-- No copy is delivered twice, and a copy is burnt only by the GET that
    returns it. -/
structure BurnOnce (h : List NodeEvent) (s : Sys Rai Server NodeReq Response) : Prop where
  once : (ledger h).reads.Pairwise fun d d' =>
    Delivered s d → Delivered s d' → d.key = d'.key → d.copy ≠ d'.copy
  own : ∀ b ∈ (ledger h).burns, b ∈ (ledger h).reads ∧
    ∀ t a, s.threads[b.tid]? = some t → t.code = .done a → a = ⟨httpOk, cString b.body⟩

/-- A DEL that Redis refused. -/
def delRefused : NodeEvent → Bool
  | .op _ _ (.redisCommand (.del _)) (some (.error _)) _ _ => true
  | _ => false

/-- Redis refused no DEL. -/
def Clean (h : List NodeEvent) : Prop := ∀ ev ∈ h, delRefused ev = false

theorem Clean.init {h : List NodeEvent} {ev : NodeEvent} (hc : Clean (h ++ [ev])) : Clean h :=
  fun ev' hm => hc ev' (List.mem_append_left _ hm)

/-! ## The invariant of the ledger -/

/-- The ledger is in order. -/
structure InOrder (l : Ledger) : Prop where
  once : l.reads.Pairwise fun d d' => d.key = d'.key → d.copy ≠ d'.copy
  own : ∀ b ∈ l.burns, b ∈ l.reads
  readBound : ∀ d ∈ l.reads, ∀ n, d.copy = some n → n < l.next
  copyBound : ∀ k n, l.copy k = some n → n < l.next

/-- Nobody has read the copy of `k` that is there. -/
def Unread (l : Ledger) (k : Bytes) : Prop := ∀ d ∈ l.reads, d.key = k → d.copy ≠ l.copy k

/-- Thread `i` has read nothing. -/
def ReadNothing (l : Ledger) (i : Nat) : Prop := ∀ d ∈ l.reads, d.tid ≠ i

theorem mem_reads_read {l : Ledger} {i : Nat} {k str : Bytes} {d : Delivery} :
    d ∈ (l.read i k str).reads ↔ d ∈ l.reads ∨ d = ⟨i, k, l.copy k, str⟩ := by
  simp [Ledger.read]

theorem copy_create_self (l : Ledger) (k : Bytes) : (l.create k).copy k = some l.next := by
  simp [Ledger.create]

theorem copy_create_ne (l : Ledger) {k k' : Bytes} (h : k' ≠ k) :
    (l.create k).copy k' = l.copy k' := by
  simp [Ledger.create, Function.update_of_ne h]

theorem InOrder.empty : InOrder .empty := by
  refine ⟨.nil, ?_, ?_, ?_⟩ <;> simp [Ledger.empty]

/-- A copy that nobody has got yet may be read. -/
theorem InOrder.read {l : Ledger} (h : InOrder l) {k : Bytes} (hu : Unread l k) (i : Nat)
    (str : Bytes) : InOrder (l.read i k str) := by
  refine ⟨?_, fun b hb => List.mem_append_left _ (h.own b hb), ?_, h.copyBound⟩
  · refine List.pairwise_append.mpr ⟨h.once, List.pairwise_singleton _ _, ?_⟩
    intro d hd d' hd' hkey
    obtain rfl := List.mem_singleton.mp hd'
    exact hu d hd hkey
  · intro d hd n hn
    rcases mem_reads_read.mp hd with hd | rfl
    · exact h.readBound d hd n hn
    · exact h.copyBound k n hn

/-- A new copy has not been read. -/
theorem InOrder.create {l : Ledger} (h : InOrder l) (k : Bytes) : InOrder (l.create k) := by
  refine ⟨h.once, h.own, fun d hd n hn => Nat.lt_succ_of_lt (h.readBound d hd n hn), ?_⟩
  intro k' n hn
  by_cases hk : k' = k
  · subst hk
    rw [copy_create_self] at hn
    cases hn
    exact Nat.lt_succ_self _
  · rw [copy_create_ne l hk] at hn
    exact Nat.lt_succ_of_lt (h.copyBound k' n hn)

/-- A copy that has been read may be burnt. -/
theorem InOrder.burn {l : Ledger} (h : InOrder l) {i : Nat} {k body : Bytes}
    (hd : (⟨i, k, l.copy k, body⟩ : Delivery) ∈ l.reads) : InOrder (l.burn i k body) := by
  refine ⟨h.once, ?_, h.readBound, h.copyBound⟩
  intro b hb
  rcases List.mem_append.mp hb with hb | hb
  · exact h.own b hb
  · rw [List.mem_singleton.mp hb]
    exact hd

/-- A new copy is unread. -/
theorem unread_create_self {l : Ledger} (h : InOrder l) (k : Bytes) : Unread (l.create k) k := by
  intro d hd _ hc
  rw [copy_create_self] at hc
  exact absurd (h.readBound d hd _ hc) (Nat.lt_irrefl _)

theorem unread_create_ne {l : Ledger} {k k' : Bytes} (hk : k' ≠ k) (hu : Unread l k') :
    Unread (l.create k) k' := by
  intro d hd hkey
  rw [copy_create_ne l hk]
  exact hu d hd hkey

/-- Reading one key leaves the copies of the others unread. -/
theorem unread_read {l : Ledger} {k k' : Bytes} (hk : k' ≠ k) (hu : Unread l k') (i : Nat)
    (str : Bytes) : Unread (l.read i k str) k' := by
  intro d hd hkey
  rcases mem_reads_read.mp hd with hd | rfl
  · exact hu d hd hkey
  · exact absurd hkey.symm hk

/-- An event adds reads of its own thread only. -/
theorem mem_reads_add {l : Ledger} {ev : NodeEvent} {d : Delivery} (hd : d ∈ (l.add ev).reads) :
    d ∈ l.reads ∨ ev.tid = some d.tid := by
  rcases ev with ⟨j, r, o, v, pre, post⟩ | ⟨e, pre, post⟩
  · rcases o with c | - | - | f
    · simp only [Ledger.add, Ledger.command] at hd
      split at hd
      · exact .inl hd
      · rcases mem_reads_read.mp hd with hd | rfl
        · exact .inl hd
        · exact .inr rfl
      · split at hd <;> exact .inl hd
      · exact .inl hd
    · exact .inl hd
    · exact .inl hd
    · exact .inl hd
  · exact .inl hd

/-- A thread that has left no event has read nothing. -/
theorem readNothing_of_fresh {w : NodeWorld} {i : Nat} (hf : w.Fresh i) :
    ReadNothing (ledger w.hist) i := by
  refine World.Fresh.induct (P := fun h => ReadNothing (ledger h) i) ?_ ?_ hf
  · intro d hd
    cases hd
  · intro h ev ih hev d hd htid
    rw [ledger_concat] at hd
    rcases mem_reads_add hd with hd | hd
    · exact ih d hd htid
    · exact hev (hd.trans (congrArg some htid))

/-! ## The outline -/

/-- At rest nobody has read what Redis holds. -/
structure AtRest (w : NodeWorld) : Prop extends InOrder (ledger w.hist) where
  unread : w.shared.broken = false → ∀ k, (w.shared.db.get k).isSome = true →
    Unread (ledger w.hist) k

/-- Thread `i` has read `str` and is about to delete it. -/
structure Burning (i : Nat) (k str : Bytes) (w : NodeWorld) : Prop
    extends InOrder (ledger w.hist) where
  connected : w.shared.broken = false
  unread : ∀ k', k' ≠ k → (w.shared.db.get k').isSome = true → Unread (ledger w.hist) k'
  mine : (⟨i, k, (ledger w.hist).copy k, str⟩ : Delivery) ∈ (ledger w.hist).reads
  body : ∀ e, w.shared.db.get k = some e → e.val = str
  only : ∀ d ∈ (ledger w.hist).reads, d.tid = i → d.body = str

/-- Thread `i` got no reply and has read nothing. -/
structure Failing (i : Nat) (w : NodeWorld) : Prop extends InOrder (ledger w.hist) where
  broken : w.shared.broken = true
  nothing : ReadNothing (ledger w.hist) i

/-- What thread `i` has read is what it answers. -/
def Answered (i : Nat) (a : Response) (w : NodeWorld) : Prop :=
  ∀ d ∈ (ledger w.hist).reads, d.tid = i → a = ⟨httpOk, cString d.body⟩

/-- The outline of the nodes while Redis refuses no DEL. -/
def outline : NodeOutline where
  Always w := Clean w.hist → InOrder (ledger w.hist)
  Rest w := Clean w.hist → AtRest w
  Burning i r k str w := r.call = .ok (.get k) ∧ (Clean w.hist → Burning i k str w)
  Failing i _ w := Clean w.hist → Failing i w
  Post i _ a w := Clean w.hist → Answered i a w

/-! ## Events the ledger does not record -/

/-- What adds nothing to the ledger and no entry to the database changes nothing. -/
theorem AtRest.skip {w : NodeWorld} (h : AtRest w) {ev : NodeEvent}
    (hl : (ledger w.hist).add ev = ledger w.hist) (hb : ev.post.broken = w.shared.broken)
    (hdb : ∀ k e, ev.post.db.get k = some e → w.shared.db.get k = some e) : AtRest (w.push ev) := by
  have hl' : ledger (w.push ev).hist = ledger w.hist := (ledger_concat _ _).trans hl
  refine ⟨by rw [hl']; exact h.toInOrder, ?_⟩
  intro hb' k hk
  rw [hl']
  obtain ⟨e, he⟩ := Option.isSome_iff_exists.mp hk
  exact h.unread (by rw [← hb]; exact hb') k (Option.isSome_iff_exists.mpr ⟨e, hdb k e he⟩)

theorem failing_push {w : NodeWorld} (h : InOrder (ledger w.hist)) {i : Nat}
    (hn : ReadNothing (ledger w.hist) i) {ev : NodeEvent}
    (hl : (ledger w.hist).add ev = ledger w.hist) (hb : ev.post.broken = true) :
    Failing i (w.push ev) := by
  have hl' : ledger (w.push ev).hist = ledger w.hist := (ledger_concat _ _).trans hl
  exact ⟨by rw [hl']; exact h, hb, by rw [hl']; exact hn⟩

/-- Who has read nothing may answer anything. -/
theorem answered_of_nothing {w : NodeWorld} {i : Nat} (hn : ReadNothing (ledger w.hist) i)
    (a : Response) {ev : NodeEvent} (hl : (ledger w.hist).add ev = ledger w.hist) :
    Answered i a (w.push ev) := by
  intro d hd htid
  rw [World.push_hist, ledger_concat, hl] at hd
  exact absurd htid (hn d hd)

theorem AtRest.env {w : NodeWorld} (h : AtRest w) {P : Policy} {e : Env} {σ' : Server}
    (he : Server.env P e w.shared = some σ') : AtRest (w.push (.env e w.shared σ')) :=
  h.skip rfl (Server.env_frame he).1 (Server.env_frame he).2

/-- Between GET and DEL the time may go by. -/
theorem Burning.env {i : Nat} {k str : Bytes} {w : NodeWorld} (h : Burning i k str w) {P : Policy}
    {e : Env} {σ' : Server} (he : Server.env P e w.shared = some σ') :
    Burning i k str (w.push (.env e w.shared σ')) := by
  obtain ⟨hb, hdb⟩ := Server.env_frame he
  have hl : ledger (w.push (.env e w.shared σ')).hist = ledger w.hist := ledger_concat _ _
  refine ⟨by rw [hl]; exact h.toInOrder, by rw [← h.connected]; exact hb, ?_,
    by rw [hl]; exact h.mine, fun e he => h.body e (hdb k e he), by rw [hl]; exact h.only⟩
  intro k' hne hk
  obtain ⟨e, he⟩ := Option.isSome_iff_exists.mp hk
  rw [hl]
  exact h.unread k' hne (Option.isSome_iff_exists.mpr ⟨e, hdb k' e he⟩)

/-! ## One command at a time -/

variable {rt : Wsrt}

/-- A GET that finds a copy is the first to read it. -/
theorem get_step (hbar : rt.bar = true) {i : Nat} {r : NodeReq} {k : Bytes} {w : NodeWorld}
    {out : Outcome} (hc : r.call = .ok (.get k)) (hw : outline.Rest w) (hf : w.Fresh i) :
    outline.AfterGet rt i r k (afterCommand w i r (.get k) (w.shared.command (.get k) out))
      (w.shared.command (.get k) out).1 := by
  have hnone := readNothing_of_fresh hf
  rcases w.shared.command_cases (.get k) out with
    ⟨hb, hx⟩ | ⟨hb, hx⟩ | ⟨hb, msg, hx⟩ | ⟨hb, db', -, hx⟩
  · rw [hx]
    exact fun hcl => failing_push (hw hcl.init).toInOrder hnone rfl hb
  · rw [hx]
    cases hk : w.shared.db.get k with
    | none =>
        rw [execute_get_none hk]
        exact ⟨fun hcl => (hw hcl.init).skip rfl rfl fun _ _ he => he,
          fun _ => answered_of_nothing hnone _ rfl⟩
    | some e =>
        rw [execute_get_some hk]
        simp only [NodeOutline.AfterGet, hbar, if_true]
        refine ⟨hc, fun hcl => ?_⟩
        have hrest := hw hcl.init
        have hu := hrest.unread hb
        have hl : ledger (w.hist ++ [commandEvent i r (.get k) (some (.string e.val)) w.shared
            w.shared]) = (ledger w.hist).read i k e.val := ledger_concat _ _
        refine ⟨?_, hb, ?_, ?_, ?_, ?_⟩
        · rw [World.push_hist, hl]
          exact hrest.toInOrder.read (hu k (by rw [hk]; rfl)) i e.val
        · intro k' hne hk'
          rw [World.push_hist, hl]
          exact unread_read hne (hu k' hk') i e.val
        · rw [World.push_hist, hl]
          exact mem_reads_read.mpr (.inr rfl)
        · intro e' he'
          obtain rfl := Option.some.inj (hk.symm.trans he')
          rfl
        -- it was fresh, so this is all it has read
        · intro d hd htid
          rw [World.push_hist, hl] at hd
          rcases mem_reads_read.mp hd with hd | rfl
          · exact absurd htid (hnone d hd)
          · rfl
  · rw [hx]
    exact ⟨fun hcl => (hw hcl.init).skip rfl rfl fun _ _ he => he,
      fun _ => answered_of_nothing hnone _ rfl⟩
  · rw [hx]
    exact fun hcl => failing_push (hw hcl.init).toInOrder hnone rfl rfl

/-- A SET that is executed creates a copy. -/
theorem set_step {i : Nat} {r : NodeReq} {k v : Bytes} {w : NodeWorld} {out : Outcome}
    (hw : outline.Rest w) (hf : w.Fresh i) :
    outline.AfterSet i r
      (afterCommand w i r (storeCommand rt k v) (w.shared.command (storeCommand rt k v) out))
      (w.shared.command (storeCommand rt k v) out).1 := by
  have hnone := readNothing_of_fresh hf
  -- broken already, executed, refused, or lost; the ledger changes only where
  -- the SET took effect
  rcases w.shared.command_cases (storeCommand rt k v) out with
    ⟨hb, hx⟩ | ⟨hb, hx⟩ | ⟨hb, msg, hx⟩ | ⟨hb, db', -, hx⟩
  · rw [hx]
    exact fun hcl => failing_push (hw hcl.init).toInOrder hnone rfl hb
  · rw [hx]
    unfold storeCommand
    rcases execute_set_cases w.shared.db k v
        (if rt.expiration = 0 then none else some rt.expiration) rt.immutable with
      ⟨-, msg, hs⟩ | ⟨-, -, -, hs⟩ | ⟨-, -, hs⟩
    · rw [hs]
      exact ⟨fun hcl => (hw hcl.init).skip rfl rfl fun _ _ he => he,
        fun _ => answered_of_nothing hnone _ rfl⟩
    · rw [hs]
      exact ⟨fun hcl => (hw hcl.init).skip rfl rfl fun _ _ he => he,
        fun _ => answered_of_nothing hnone _ rfl⟩
    · rw [hs]
      refine ⟨fun hcl => ?_, fun _ d hd htid => ?_⟩
      · have hrest := hw hcl.init
        -- a new copy of `k`, which nobody has read, and the copies of other keys
        refine ⟨?_, fun _ k' hk' => ?_⟩
        · rw [World.push_hist, ledger_concat]
          exact hrest.toInOrder.create k
        · rw [World.push_hist, ledger_concat]
          by_cases hne : k' = k
          · subst hne
            exact unread_create_self hrest.toInOrder k'
          · have hk'' : (w.shared.db.get k').isSome = true := by
              rw [← Expiry.Map.get_put_ne _ _ hne]
              exact hk'
            exact unread_create_ne hne (hrest.unread hb k' hk'')
      · rw [World.push_hist, ledger_concat] at hd
        exact absurd htid (hnone d hd)
  · rw [hx]
    exact ⟨fun hcl => (hw hcl.init).skip rfl rfl fun _ _ he => he,
      fun _ => answered_of_nothing hnone _ rfl⟩
  · rw [hx]
    exact fun hcl => failing_push (hw hcl.init).toInOrder hnone rfl rfl

/-- Entering a DEL changes neither the reads nor the copies. -/
theorem command_del (l : Ledger) (i : Nat) (k : Bytes) (pre post : Db) (v : Option Reply) :
    (l.command i pre post (.del k) v).reads = l.reads ∧
      (l.command i pre post (.del k) v).copy = l.copy := by
  simp only [Ledger.command]
  split <;> exact ⟨rfl, rfl⟩

/-- What thread `i` deletes is what it has read. -/
theorem Burning.inOrder_del {i : Nat} {k str : Bytes} {w : NodeWorld} (h : Burning i k str w)
    (post : Db) (v : Option Reply) :
    InOrder ((ledger w.hist).command i w.shared.db post (.del k) v) := by
  simp only [Ledger.command]
  split
  · rename_i e hpre _
    refine h.toInOrder.burn ?_
    rw [h.body e hpre]
    exact h.mine
  · exact h.toInOrder

/-- Behind a DEL that is executed the copy is gone. -/
theorem del_step {i : Nat} {r : NodeReq} {k str : Bytes} {w : NodeWorld} {out : Outcome}
    (hw : outline.Burning i r k str w) :
    outline.Rest (afterCommand w i r (.del k) (w.shared.command (.del k) out)) ∧
      outline.Post i r ⟨httpOk, cString str⟩
        (afterCommand w i r (.del k) (w.shared.command (.del k) out)) := by
  refine ⟨fun hcl => ?_, fun hcl => ?_⟩
  · have hburn := hw.2 hcl.init
    rcases w.shared.command_cases (.del k) out with
      ⟨hb, hx⟩ | ⟨hb, hx⟩ | ⟨hb, msg, hx⟩ | ⟨hb, db', -, hx⟩
    · -- the connection is still there
      rw [hburn.connected] at hb
      cases hb
    · -- the DEL is executed and answered: the other keys are as unread as before
      rw [hx] at hcl ⊢
      refine ⟨?_, fun _ k' hk' => ?_⟩
      · rw [World.push_hist, ledger_concat]
        exact hburn.inOrder_del (w.shared.db.erase k) (some (execute w.shared.db (.del k)).1)
      · have hne : k' ≠ k := by
          rintro rfl
          simp at hk'
        rw [World.push_shared, Event.post_op, execute_del, Expiry.Map.get_erase_ne _ hne] at hk'
        obtain ⟨hreads, hcopy⟩ := command_del (ledger w.hist) i k w.shared.db
          (w.shared.db.erase k) (some (execute w.shared.db (.del k)).1)
        rw [World.push_hist, ledger_concat]
        unfold Unread
        simp only [Ledger.add, execute_del, hreads, hcopy]
        exact hburn.unread k' hne hk'
    · -- a refusal is what a clean history excludes
      rw [hx] at hcl
      exact absurd (hcl _ (World.mem_push_self _ _)) (by simp [delRefused])
    · rw [hx]
      refine ⟨?_, fun hf => absurd hf (by simp)⟩
      rw [World.push_hist, ledger_concat]
      exact hburn.inOrder_del db' none
  · have hburn := hw.2 hcl.init
    intro d hd htid
    rw [World.push_hist, ledger_concat] at hd
    simp only [Ledger.add, command_del] at hd
    rw [hburn.only d hd htid]

/-- Reading and burning follow the rule of the nodes. -/
theorem outline_valid (hbar : rt.bar = true) (P : Policy) : outline.Valid rt P where
  always_of_rest h hcl := (h hcl).toInOrder
  always_of_burning h hcl := (h.2 hcl).toInOrder
  always_of_failing h hcl := (h hcl).toInOrder
  rest_env h he hcl := (h hcl.init).env he
  burning_env h he := ⟨h.1, fun hcl => (h.2 hcl.init).env he⟩
  failing_env := by
    intro i r w e σ' h he hcl
    have hfail := h hcl.init
    exact failing_push hfail.toInOrder hfail.nothing rfl
      ((Server.env_frame he).1.trans hfail.broken)
  post_push := by
    intro i r a w ev h hev hcl d hd htid
    rw [World.push_hist, ledger_concat] at hd
    -- what was read before, or is read by the other thread
    rcases mem_reads_add hd with hd | hd
    · exact h hcl.init d hd htid
    · exact absurd (hd.trans (congrArg some htid)) hev
  stopped := by
    intro i r w _ _ w' _ hf _ d hd htid
    exact absurd htid (readNothing_of_fresh hf d hd)
  refused := by
    intro i r resp w _ _ hf _ d hd htid
    exact absurd htid (readNothing_of_fresh hf d hd)
  get_step hc hw hf _ := get_step hbar hc hw hf
  set_step _ hw hf _ := set_step hw hf
  del_step hw _ := del_step hw
  error_step := by
    intro i r w h
    refine ⟨fun hcl => ?_, fun hcl => ?_⟩
    · have hfail := h hcl.init
      exact ⟨by rw [World.push_hist, ledger_concat]; exact hfail.toInOrder, fun hb => by
        rw [World.push_shared, Event.post_op] at hb
        exact absurd hfail.broken (by simp [← hb, Server.stop])⟩
    · exact answered_of_nothing (h hcl.init).nothing _ rfl

/-! ## Burning after reading -/

/-- While Redis refuses no DEL, every copy is delivered at most once and burnt
    only by its reader, whatever else fails. -/
theorem burn_once (hbar : rt.bar = true) (db₀ : Db)
    {h : List NodeEvent} {s : Sys Rai Server NodeReq Response}
    (run : (nodeMachine .anything rt).Run (Machine.init (Server.start db₀)) h s)
    (hclean : Clean h) : BurnOnce h s := by
  have V := outline_valid hbar .anything
  have h₀ : outline.Rest ⟨[], Server.start db₀⟩ := fun _ => ⟨.empty, fun _ k _ d hd => nomatch hd⟩
  have horder := V.always h₀ run hclean
  -- the ledger of the whole run is in order, and each burn is by the reader
  refine ⟨horder.once.imp fun hd _ _ => hd, fun b hb => ⟨horder.own b hb, ?_⟩⟩
  intro t a ht ha
  exact V.answered h₀ run ht ha hclean b (horder.own b hb) rfl

/-- A store that burns and does nothing else. -/
def burnRt : Wsrt := ⟨true, 0, 0, 0, 0, false, true⟩

/-- One POST and two GETs of the same token, one after the other; `out` is what
    becomes of the DEL of the first GET. -/
def burnSchedule (out : Outcome) : List (Label NodeReq Env Outcome) :=
  [.spawn ⟨.alg128, .post, lowerToken, ascii "HelloWorld"⟩,
    .spawn ⟨.alg128, .get, lowerToken, []⟩, .spawn ⟨.alg128, .get, upperToken, []⟩,
    .act 0 .answered, .act 0 .answered, .act 0 .answered, .act 0 .answered,
    .act 1 .answered, .act 1 .answered, .act 1 .answered, .act 1 out, .act 1 .answered,
    .act 2 .answered, .act 2 .answered, .act 2 .answered, .act 2 .answered, .act 2 .answered]

/-- After a DEL that got lost the body is not delivered again. -/
theorem burn_once_lost :
    ∃ h s, (nodeMachine .anything burnRt).Run (Machine.init (Server.start (.empty 0))) h s ∧
      s.threads.map (·.code.answer?) =
        [some ⟨200, ascii "ok"⟩, some ⟨200, ascii "HelloWorld"⟩,
          some ⟨503, ascii "service unavailable"⟩] ∧
      BurnOnce h s := by
  have hrun : ((nodeMachine .anything burnRt).follow (Machine.init (Server.start (.empty 0)))
      (burnSchedule (.lost false))).map
        (fun p => (p.1.all fun ev => !delRefused ev, p.2.threads.map (·.code.answer?))) =
      some (true, [some ⟨200, ascii "ok"⟩, some ⟨200, ascii "HelloWorld"⟩,
        some ⟨503, ascii "service unavailable"⟩]) := by decide +kernel
  obtain ⟨h, s, run, hs⟩ := Machine.exists_run_of_follow hrun
  obtain ⟨hclean, hans⟩ := Prod.mk.inj hs
  refine ⟨h, s, run, hans, burn_once rfl _ run fun ev hm => ?_⟩
  simpa using List.all_eq_true.mp hclean ev hm

/-- After a DEL that was refused the next GET delivers the same copy again. -/
theorem burn_twice :
    ∃ h s, (nodeMachine .anything burnRt).Run (Machine.init (Server.start (.empty 0))) h s ∧
      ¬ BurnOnce h s := by
  have hrun : ((nodeMachine .anything burnRt).follow (Machine.init (Server.start (.empty 0)))
      (burnSchedule (.refused (ascii "MISCONF")))).map
        (fun p => ((ledger p.1).reads, p.2.threads.map (·.code.answer?))) =
      some ([⟨1, lowerToken, some 0, ascii "HelloWorld"⟩,
          ⟨2, lowerToken, some 0, ascii "HelloWorld"⟩],
        [some ⟨200, ascii "ok"⟩, some ⟨200, ascii "HelloWorld"⟩,
          some ⟨200, ascii "HelloWorld"⟩]) := by decide +kernel
  obtain ⟨h, s, run, hs⟩ := Machine.exists_run_of_follow hrun
  obtain ⟨hreads, hans⟩ := Prod.mk.inj hs
  have hdel : ∀ i, i = 1 ∨ i = 2 → ∃ t page, s.threads[i]? = some t ∧
      t.code = .done ⟨httpOk, page⟩ := by
    rintro i (rfl | rfl)
    · obtain ⟨t, ht, hc⟩ := Machine.answered_of_map hans (i := 1) rfl
      exact ⟨t, _, ht, hc⟩
    · obtain ⟨t, ht, hc⟩ := Machine.answered_of_map hans (i := 2) rfl
      exact ⟨t, _, ht, hc⟩
  refine ⟨h, s, run, fun hb => ?_⟩
  have honce := hb.once
  rw [hreads] at honce
  exact List.rel_of_pairwise_cons honce (List.mem_singleton.mpr rfl) (hdel 1 (.inl rfl))
    (hdel 2 (.inr rfl)) rfl rfl

end Burn

end Webstore
