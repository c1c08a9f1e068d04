/-
  Webstore.Daemon.Refine

  Over HTTP the server is a store on an expiring map.  While Redis answers
  every command, whatever comes in at the same time, there is an order of the
  answered requests in which each that got through to the store is one call on
  it and was told what the store says; and what Redis holds, but for the
  counters of the limiter, is what the store holds.

    * `Told`: what the answer to a request has to do with the store.
    * `Serving`: where a request can stand that is served alone.
    * `daemon_refines_store`: the refinement, for every run and every place to
      cut it in two.

  The order is that of `Calm.serializable`; the requests are then served one
  after the other, and the proof rule of `Turns` applies.
-/
import Webstore.Daemon.Origin
import Webstore.Daemon.Serial
import Webstore.Node.Refine
import Webstore.Sched.Turns

namespace Webstore

open Webstore.Libc Webstore.Sched

namespace Http

open Refine (answersTo answersTo_concat_self answersTo_concat_ne execute_store strings_erase
  strings_put)

/-! ## The store -/

/-- Calls, in their order, each under the number of its request, and the
    passing of time. -/
abbrev Steps := List (Expiry.Step Nat Bytes Bytes)

/-- The requests that made a call. -/
def callers (g : Steps) : List Nat :=
  g.filterMap fun
    | .call i _ => some i
    | .tick _ => none

/-- A key that is no counter. -/
def MessageKey (k : Bytes) : Prop := ∀ ip, k ≠ ipKey ip

theorem messageKey_of_calls {rt : Wsrt} {x : Exchange} {c : Expiry.Call Bytes Bytes}
    (h : x.Calls rt c) : MessageKey c.key := by
  intro ip heq
  exact not_hexKey_ipKey ip (heq ▸ h.tokenKey.digits)

variable (rt : Wsrt) (db₀ : Db)

/-- What the store holds and has answered. -/
def store (g : Steps) : Expiry.Map Bytes Bytes × List (Nat × Expiry.Answer Bytes) :=
  rt.settings.run db₀ g

theorem store_call (g : Steps) (i : Nat) (c : Expiry.Call Bytes Bytes) :
    store rt db₀ (g ++ [.call i c]) = ((rt.settings.serve (store rt db₀ g).1 c).2,
      (store rt db₀ g).2 ++ [(i, (rt.settings.serve (store rt db₀ g).1 c).1)]) :=
  rt.settings.run_concat db₀ g _

theorem store_tick (g : Steps) (d : Nat) :
    store rt db₀ (g ++ [.tick d]) = ((store rt db₀ g).1.tick d, (store rt db₀ g).2) :=
  rt.settings.run_concat db₀ g _

theorem callers_call (g : Steps) (i : Nat) (c : Expiry.Call Bytes Bytes) :
    callers (g ++ [.call i c]) = callers g ++ [i] := by
  simp [callers]

theorem callers_tick (g : Steps) (d : Nat) : callers (g ++ [.tick d]) = callers g := by
  simp [callers]

/-- Who made no call got no answer from the store. -/
theorem answersTo_fresh {g : Steps} {i : Nat} (h : i ∉ callers g) :
    answersTo i (store rt db₀ g).2 = [] := by
  induction g using List.reverseRecOn with
  | nil => rfl
  | append_singleton g st ih =>
      cases st with
      | tick d =>
          rw [callers_tick] at h
          rw [store_tick]
          exact ih h
      | call j c =>
          rw [callers_call, List.mem_append, List.mem_singleton, not_or] at h
          rw [store_call, answersTo_concat_ne (Ne.symm h.2)]
          exact ih h.1

/-- What request `i` was told is what the store says of its call; or it made no
    call, and was not told 200, unless by the page of `/config/`.  A connection
    makes no call. -/
def Told (g : Steps) (i : Nat) : Arrival → Departure → Prop
  | .connection _, _ => i ∉ callers g
  | .exchange x, d =>
      (∃ c ans, x.Calls rt c ∧ .call i c ∈ g ∧ answersTo i (store rt db₀ g).2 = [ans] ∧
        d = .result (queued (answerResponse ans))) ∨
      (i ∉ callers g ∧ ∃ r, d = .result r ∧ (r.IsOk → x.AsksConfig))

variable {rt db₀} {g : Steps} {i n : Nat} {r : Arrival} {d : Departure} {x : Exchange}
  {c : Expiry.Call Bytes Bytes} {a : Server} {p : Prog Rai Departure}

theorem callers_append (g u : Steps) : callers (g ++ u) = callers g ++ callers u :=
  List.filterMap_append

theorem not_mem_callers_call {j : Nat} (h : i ∉ callers g) (hj : j ≠ i)
    (c : Expiry.Call Bytes Bytes) : i ∉ callers (g ++ [.call j c]) := by
  rw [callers_call, List.mem_append, List.mem_singleton, not_or]
  exact ⟨h, Ne.symm hj⟩

/-- What others call does not change what a request was told. -/
theorem Told.call (h : Told rt db₀ g i r d) {j : Nat} (hj : j ≠ i) (c : Expiry.Call Bytes Bytes) :
    Told rt db₀ (g ++ [.call j c]) i r d := by
  cases r with
  | connection ip => exact not_mem_callers_call h hj c
  | exchange x =>
      rcases h with ⟨c', ans, hc, hm, hans, hd⟩ | ⟨hno, hr⟩
      · refine .inl ⟨c', ans, hc, List.mem_append_left _ hm, ?_, hd⟩
        rw [store_call, answersTo_concat_ne hj, hans]
      · exact .inr ⟨not_mem_callers_call hno hj c, hr⟩

/-- Nor does the time that goes by. -/
theorem Told.tick (h : Told rt db₀ g i r d) (t : Nat) : Told rt db₀ (g ++ [.tick t]) i r d := by
  cases r with
  | connection ip =>
      have hno : i ∉ callers g := h
      rwa [← callers_tick g t] at hno
  | exchange x =>
      rcases h with ⟨c', ans, hc, hm, hans, hd⟩ | ⟨hno, hr⟩
      · refine .inl ⟨c', ans, hc, List.mem_append_left _ hm, ?_, hd⟩
        rw [store_tick, hans]
      · exact .inr ⟨by rwa [callers_tick], hr⟩

/-- From `g` to `g'` only the requests from `n` on have called. -/
def Goes (n : Nat) (g g' : Steps) : Prop := ∃ u, g' = g ++ u ∧ ∀ i ∈ callers u, n ≤ i

/-- The store goes on from where it has come to. -/
theorem Goes.trans {m : Nat} {g' g'' : Steps} (hmn : m ≤ n) (h : Goes m g g')
    (h' : Goes n g' g'') : Goes m g g'' := by
  obtain ⟨u, rfl, hu⟩ := h
  obtain ⟨u', rfl, hu'⟩ := h'
  refine ⟨u ++ u', List.append_assoc g u u', fun i hi => ?_⟩
  rw [callers_append] at hi
  rcases List.mem_append.mp hi with hi | hi
  · exact hu i hi
  · exact hmn.trans (hu' i hi)

/-- What later requests do changes no answer. -/
theorem Told.goes {g' : Steps} (h : Told rt db₀ g i r d) (hg : Goes n g g') (hi : i < n) :
    Told rt db₀ g' i r d := by
  obtain ⟨u, rfl, hu⟩ := hg
  induction u using List.reverseRecOn with
  | nil => rwa [List.append_nil]
  | append_singleton u st ih =>
      rw [callers_append] at hu
      have hold := ih fun j hj => hu j (List.mem_append_left _ hj)
      rw [← List.append_assoc]
      cases st with
      | tick t => exact hold.tick t
      | call j c =>
          have hj : n ≤ j := hu j (List.mem_append_right _ (List.mem_singleton_self j))
          exact hold.call (Nat.ne_of_gt (Nat.lt_of_lt_of_le hi hj)) c

/-! ## Redis and the store -/

variable (rt db₀)

/-- Nothing has failed, what is stored are C strings, and the calls so far are
    of the first `n` requests, in their order. -/
structure Sound (g : Steps) (n : Nat) (a : Server) : Prop where
  up : a.Up
  strings : ∀ k e, a.db.get k = some e → NulFree e.val
  fresh : ∀ i ∈ callers g, i < n
  sorted : (callers g).Pairwise (· < ·)

/-- Redis holds what the store holds, but for the counters. -/
structure AtRest (g : Steps) (n : Nat) (a : Server) : Prop extends Sound g n a where
  agree : a.db.AgreeOn MessageKey (store rt db₀ g).1

variable {rt db₀}

theorem Sound.succ (h : Sound g n a) : Sound g (n + 1) a :=
  ⟨h.up, h.strings, fun i hi => Nat.lt_succ_of_lt (h.fresh i hi), h.sorted⟩

theorem AtRest.succ (h : AtRest rt db₀ g n a) : AtRest rt db₀ g (n + 1) a :=
  ⟨h.toSound.succ, h.agree⟩

theorem Sound.not_mem (h : Sound g n a) : n ∉ callers g := fun hm => Nat.lt_irrefl _ (h.fresh n hm)

theorem Sound.tick (h : Sound g n a) (t : Nat) :
    Sound (g ++ [.tick t]) n { a with db := a.db.tick t } where
  up := h.up
  strings k e he := h.strings k e (Expiry.Map.get_of_get_tick he)
  fresh := by rw [callers_tick]; exact h.fresh
  sorted := by rw [callers_tick]; exact h.sorted

theorem AtRest.tick (h : AtRest rt db₀ g n a) (t : Nat) :
    AtRest rt db₀ (g ++ [.tick t]) n { a with db := a.db.tick t } :=
  ⟨h.toSound.tick t, by rw [store_tick]; exact h.agree.tick t⟩

/-- Request `n` makes its call: from now on the store has served it. -/
theorem AtRest.call (h : AtRest rt db₀ g n a) (hc : x.Calls rt c) :
    Sound (g ++ [.call n c]) (n + 1) a ∧
    (rt.settings.serve a.db c).2.AgreeOn MessageKey (store rt db₀ (g ++ [.call n c])).1 ∧
    Told rt db₀ (g ++ [.call n c]) n (.exchange x)
      (.result (queued (answerResponse (rt.settings.serve a.db c).1))) := by
  obtain ⟨hans, hagree⟩ := h.agree.serve rt.settings (messageKey_of_calls hc)
  refine ⟨⟨h.up, h.strings, ?_, ?_⟩, ?_,
    .inl ⟨c, _, hc, List.mem_append_right _ (by simp), ?_, rfl⟩⟩
  · rw [callers_call]
    intro i hi
    rcases List.mem_append.mp hi with hi | hi
    · exact Nat.lt_succ_of_lt (h.fresh i hi)
    · rw [List.mem_singleton.mp hi]
      exact Nat.lt_succ_self n
  · rw [callers_call, List.pairwise_append]
    refine ⟨h.sorted, List.pairwise_singleton _ _, fun i hi j hj => ?_⟩
    rw [List.mem_singleton.mp hj]
    exact h.fresh i hi
  · rw [store_call]
    exact hagree
  · rw [store_call, answersTo_concat_self, answersTo_fresh rt db₀ h.not_mem, hans]
    rfl

/-! ## A connection -/

/-- A counter is written in digits. -/
theorem strings_connection {rt : Wsrt} {ip : Bytes} {cmd : Cmd}
    (hc : Arrival.Sends rt (.connection ip) cmd) {db : Db}
    (h : ∀ k e, db.get k = some e → NulFree e.val) :
    ∀ k e, (execute db cmd).2.get k = some e → NulFree e.val := by
  have hone : NulFree (ascii "1") := nulFree_decimal 1
  cases hc with
  | read ip => rwa [execute_get]
  | save ip found =>
      cases found with
      | false =>
          simp only [saveCommand, if_true]
          rcases execute_set_cases db (ipKey ip) (ascii "1") (some rt.reqperiod.toNat) false with
            ⟨-, msg, hx⟩ | ⟨-, -, -, hx⟩ | ⟨-, -, hx⟩ <;> rw [hx]
          · exact h
          · exact h
          · exact strings_put h _ hone
      | true =>
          simp only [saveCommand, Bool.true_eq_false, if_false, execute, incrEntry]
          split
          · split
            · exact h
            · split
              · exact strings_put h _ (nulFree_ll2string _)
              · exact h
          · exact strings_put h _ hone

/-- A command of a connection is nothing to the store. -/
theorem AtRest.counter (h : AtRest rt db₀ g n a) {rt' : Wsrt} {ip : Bytes} {cmd : Cmd}
    (hc : Arrival.Sends rt' (.connection ip) cmd) :
    AtRest rt db₀ g n { a with db := (execute a.db cmd).2 } where
  up := h.up
  strings := strings_connection hc h.strings
  fresh := h.fresh
  sorted := h.sorted
  agree := by
    have hkey : cmd.key = ipKey ip := by
      cases hc with
      | read ip => rfl
      | save ip found => cases found <;> rfl
    obtain ⟨hnow, hframe⟩ := execute_frame a.db cmd
    exact Expiry.Map.AgreeOn.trans ⟨hnow, fun k hk => hframe k (hkey ▸ hk ip)⟩ h.agree

/-! ## A request -/

/-- The answer to a request whose node ends so. -/
def reply (resp : Response) : Departure := .result (queued resp)

variable (rt db₀)

/-- Where request `i` can stand. -/
inductive Serving (g : Steps) (i : Nat) : Arrival → Prog Rai Departure → Server → Prop where
  | check {ip : Bytes} {p : Prog Rai Departure} {a : Server}
      (hp : Unshaken (Arrival.Sends (rt.threaded false) (.connection ip)) p)
      (h : AtRest rt db₀ g i a) : Serving g i (.connection ip) p a
  | dispatch {x : Exchange} {p : Prog Rai MhdResult} {a : Server}
      (hp : x.Form (rt.threaded false) p) (h : AtRest rt db₀ g i a) :
      Serving g i (.exchange x) (p >>= fun r => .done (.result r)) a
  | call {x : Exchange} {c : Expiry.Call Bytes Bytes} {a : Server} (hc : x.Calls rt c)
      (h : AtRest rt db₀ g i a) : Serving g i (.exchange x)
        (callSection (rt.threaded false) c >>= fun resp => .done (reply resp)) a
  /-- The store has given the entry up, Redis does with the `DEL`. -/
  | burning {x : Exchange} {k : Bytes} {d : Departure} {a : Server} (h : Sound g (i + 1) a)
      (herased : (a.db.erase k).AgreeOn MessageKey (store rt db₀ g).1)
      (htold : Told rt db₀ g i (.exchange x) d) :
      Serving g i (.exchange x) (.op (S := Rai) (.redisCommand (.del k)) fun _ => .done d) a
  | told {x : Exchange} {d : Departure} {a : Server} (h : AtRest rt db₀ g (i + 1) a)
      (htold : Told rt db₀ g i (.exchange x) d) : Serving g i (.exchange x) (.done d) a

/-- What holds while requests are served one after the other. -/
def turns : Turns Rai Server Arrival Departure Steps where
  Rest := AtRest rt db₀
  In := Serving rt db₀
  Post := Told rt db₀
  Goes := Goes

variable {rt db₀}

/-- A request that asks nobody. -/
theorem AtRest.told (h : AtRest rt db₀ g n a) {r : MhdResult} (hr : r.IsOk → x.AsksConfig) :
    Told rt db₀ g n (.exchange x) (.result r) :=
  .inr ⟨h.not_mem, r, rfl, hr⟩

end Http

end Webstore
