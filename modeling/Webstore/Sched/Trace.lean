/-
  Webstore.Sched.Trace

  Reading a history backwards: which program an event comes from, what a
  thread has seen when it answers, and which event a value in the resource
  goes back to.

    * `Leads observed i r p es q`: thread `i`, which serves `r`, gets from `p`
      to `q` and leaves the events `es`.
    * `Run.leads`: every thread of a run has been led from its body to where it
      is by its own events.
    * `Linked.brought`: what the resource holds in the end it held from the
      start, or some event brought it and all later ones left it there.
-/
import Webstore.Sched.Local
import Webstore.Sched.Progress

namespace Webstore.Sched

variable {S : Sig} {σ Req Resp Env Choice : Type}

/-! ## One thread -/

/-- Thread `i`, which serves `r`, gets from one program to another and leaves
    these events. -/
inductive Leads (observed : S.Op → Bool) (i : Nat) (r : Req) :
    Prog S Resp → List (Event S σ Req Env) → Prog S Resp → Prop where
  | here (p : Prog S Resp) : Leads observed i r p [] p
  | lock {p q : Prog S Resp} {es : List (Event S σ Req Env)} (h : Leads observed i r p es q) :
      Leads observed i r (.lock p) es q
  | unlock {p q : Prog S Resp} {es : List (Event S σ Req Env)} (h : Leads observed i r p es q) :
      Leads observed i r (.unlock p) es q
  | seen {o : S.Op} {k : S.Ret o → Prog S Resp} {v : S.Ret o} {a b : σ} {q : Prog S Resp}
      {es : List (Event S σ Req Env)} (ho : observed o = true)
      (h : Leads observed i r (k v) es q) :
      Leads observed i r (.op o k) (.op i r o v a b :: es) q
  | quiet {o : S.Op} {k : S.Ret o → Prog S Resp} {v : S.Ret o} {q : Prog S Resp}
      {es : List (Event S σ Req Env)} (ho : observed o = false)
      (h : Leads observed i r (k v) es q) : Leads observed i r (.op o k) es q

namespace Leads

variable {observed : S.Op → Bool} {i : Nat} {r : Req} {p q q' : Prog S Resp}
  {es es' : List (Event S σ Req Env)} {ok : S.Op → Prop}

/-- What one list of events leaves, a second takes up. -/
theorem trans (h : Leads observed i r p es q) (h' : Leads observed i r q es' q') :
    Leads observed i r p (es ++ es') q' := by
  induction h with
  | here p => exact h'
  | lock _ ih => exact .lock (ih h')
  | unlock _ ih => exact .unlock (ih h')
  | seen ho _ ih => exact .seen ho (ih h')
  | quiet ho _ ih => exact .quiet ho (ih h')

/-- The events are those of the thread. -/
theorem mem (h : Leads observed i r p es q) {ev : Event S σ Req Env} (hm : ev ∈ es) :
    ∃ o v a b, ev = .op i r o v a b := by
  induction h with
  | here p => cases hm
  | lock _ ih => exact ih hm
  | unlock _ ih => exact ih hm
  | seen ho _ ih =>
      rcases List.mem_cons.mp hm with rfl | hm
      · exact ⟨_, _, _, _, rfl⟩
      · exact ih hm
  | quiet ho _ ih => exact ih hm

/-- A thread comes to those operations only that are in its program. -/
theorem ok_of_mem {n : Nat} (h : Leads observed i r p es q) (hp : p.Within ok n) {j : Nat}
    {r' : Req} {o : S.Op} {v : S.Ret o} {a b : σ} (hm : .op j r' o v a b ∈ es) : ok o := by
  -- along the events: what is made next is within the bound
  induction h generalizing n with
  | here p => cases hm
  | lock _ ih =>
      cases n with
      | zero => exact hp.elim
      | succ n => exact ih hp hm
  | unlock _ ih =>
      cases n with
      | zero => exact hp.elim
      | succ n => exact ih hp hm
  | seen ho _ ih =>
      cases n with
      | zero => exact hp.elim
      | succ n =>
          rcases List.mem_cons.mp hm with heq | hm
          · cases heq
            exact hp.1
          · exact ih (hp.2 _) hm
  | quiet ho _ ih =>
      cases n with
      | zero => exact hp.elim
      | succ n => exact ih (hp.2 _) hm

/-- Going on with the answer leaves nothing behind. -/
theorem of_map {α : Type} {p : Prog S α} {f : α → Resp} {b : Resp}
    (h : Leads observed i r (p >>= fun a => .done (f a)) es (.done b)) :
    ∃ a, f a = b ∧ Leads observed i r p es (.done a) := by
  -- along the program, until its answer
  induction p generalizing es with
  | done a =>
      cases h
      exact ⟨a, rfl, .here _⟩
  | lock k ih =>
      cases h with
      | lock h =>
          obtain ⟨a, ha, h⟩ := ih h
          exact ⟨a, ha, .lock h⟩
  | unlock k ih =>
      cases h with
      | unlock h =>
          obtain ⟨a, ha, h⟩ := ih h
          exact ⟨a, ha, .unlock h⟩
  | op o k ih =>
      cases h with
      | seen ho h =>
          obtain ⟨a, ha, h⟩ := ih _ h
          exact ⟨a, ha, .seen ho h⟩
      | quiet ho h =>
          obtain ⟨a, ha, h⟩ := ih _ h
          exact ⟨a, ha, .quiet ho h⟩

/-- What has answered does nothing more. -/
theorem of_done {a b : Resp} (h : Leads observed i r (.done a) es (.done b)) : es = [] ∧ a = b := by
  cases h
  exact ⟨rfl, rfl⟩

/-- An observed operation is the first event. -/
theorem of_op {o : S.Op} {k : S.Ret o → Prog S Resp} {b : Resp} (ho : observed o = true)
    (h : Leads observed i r (.op o k) es (.done b)) :
    ∃ v pre post es', es = .op i r o v pre post :: es' ∧
      Leads observed i r (k v) es' (.done b) := by
  cases h with
  | seen _ h => exact ⟨_, _, _, _, rfl, h⟩
  | quiet ho' _ => exact absurd (ho'.symm.trans ho) nofun

/-- Any other leaves none. -/
theorem of_quiet {o : S.Op} {k : S.Ret o → Prog S Resp} {b : Resp} (ho : observed o = false)
    (h : Leads observed i r (.op o k) es (.done b)) :
    ∃ v, Leads observed i r (k v) es (.done b) := by
  cases h with
  | seen ho' _ => exact absurd (ho'.symm.trans ho) nofun
  | quiet _ h => exact ⟨_, h⟩

end Leads

/-! ## All threads -/

namespace Machine

variable {M : Machine S σ Req Resp Env Choice}

/-- The steps of a thread lead it on. -/
theorem local_leads (M : Machine S σ Req Resp Env Choice) :
    M.Local (fun _ => True) fun i r p es => Leads M.observed i r (M.body r) es p where
  env _ _ := trivial
  starts _ _ := .here _
  lock h := by simpa using h.trans (.lock (.here _))
  unlock h := by simpa using h.trans (.unlock (.here _))
  op {i r o k es a b c v} h _ _ := by
    refine ⟨trivial, h.trans ?_⟩
    cases ho : M.observed o with
    | true => exact .seen ho (.here _)
    | false => exact .quiet ho (.here _)

theorem Run.kept_leads {a : σ} {s : Sys S σ Req Resp} {h : List (Event S σ Req Env)}
    (run : M.Run (init a) h s) :
    Kept (fun _ => True) (fun i r p es => Leads M.observed i r (M.body r) es p) h s :=
  (local_leads M).kept (.init trivial) run

/-- What a thread has still to do is what its own events have left of its body. -/
theorem Run.leads {a : σ} {s : Sys S σ Req Resp} {h : List (Event S σ Req Env)}
    (run : M.Run (init a) h s) {i : Nat} {t : Thread S Req Resp} (ht : s.threads[i]? = some t) :
    Leads M.observed i t.req (M.body t.req) (own i h) t.code :=
  run.kept_leads.threads i t ht

/-- An event of a thread carries the request that the thread serves. -/
theorem Run.thread_of_mem {a : σ} {s : Sys S σ Req Resp} {h : List (Event S σ Req Env)}
    (run : M.Run (init a) h s) {i : Nat} {r : Req} {o : S.Op} {v : S.Ret o} {pre post : σ}
    (hm : .op i r o v pre post ∈ h) : ∃ t, s.threads[i]? = some t ∧ t.req = r := by
  have hlt := run.kept_leads.tids _ hm i rfl
  have ht := List.getElem?_eq_getElem hlt
  obtain ⟨o', v', a', b', heq⟩ := (run.leads ht).mem (mem_own.mpr ⟨hm, rfl⟩)
  cases heq
  exact ⟨_, ht, rfl⟩

/-- An operation in the history is one of the request it was performed for. -/
theorem Run.ok_of_mem {ok : Req → S.Op → Prop} {n : Nat}
    (hbody : ∀ r, (M.body r).Within (ok r) n) {a : σ} {s : Sys S σ Req Resp}
    {h : List (Event S σ Req Env)} (run : M.Run (init a) h s) {i : Nat} {r : Req} {o : S.Op}
    {v : S.Ret o} {pre post : σ} (hm : .op i r o v pre post ∈ h) : ok r o := by
  obtain ⟨t, ht, rfl⟩ := run.thread_of_mem hm
  exact (run.leads ht).ok_of_mem (hbody _) (mem_own.mpr ⟨hm, rfl⟩)

/-! ## Histories -/

/-- One step leaves at most one event, and it starts where the step does. -/
theorem step_events {s s' : Sys S σ Req Resp} {l : Label Req Env Choice}
    {es : List (Event S σ Req Env)} (hs : M.step s l = some (es, s')) :
    es = [] ∨ ∃ ev, es = [ev] ∧ ev.pre = s.shared := by
  rcases step_cases hs with
    ⟨r, -, rfl, -⟩ | ⟨i, r, k, -, -, rfl, -⟩ | ⟨i, r, k, -, rfl, -⟩ |
    ⟨i, r, o, k, c, v, σ', -, -, rfl, -⟩ | ⟨e, σ', -, rfl, -⟩
  · exact .inl rfl
  · exact .inl rfl
  · exact .inl rfl
  · split
    · exact .inr ⟨_, rfl, rfl⟩
    · exact .inl rfl
  · exact .inr ⟨_, rfl, rfl⟩

/-- What happened before an event is a run that ends where the event starts. -/
theorem Run.before {s₀ s : Sys S σ Req Resp} {h : List (Event S σ Req Env)} (run : M.Run s₀ h s)
    {past later : List (Event S σ Req Env)} {ev : Event S σ Req Env}
    (hh : h = past ++ ev :: later) :
    ∃ s', M.Run s₀ past s' ∧ s'.shared = ev.pre := by
  -- induction on the run: the event is that of its last step, or it was there before
  induction run generalizing later with
  | start =>
      have := congrArg List.length hh
      simp at this
  | @step h s s' l es run hs ih =>
      rcases step_events hs with rfl | ⟨ev', rfl, hpre⟩
      · exact ih (by simpa using hh)
      · rcases List.eq_nil_or_concat later with rfl | ⟨later, last, rfl⟩
        · obtain ⟨rfl, heq⟩ := List.append_inj' hh rfl
          cases heq
          exact ⟨s, run, hpre.symm⟩
        · rw [List.concat_eq_append, ← List.cons_append, ← List.append_assoc] at hh
          exact ih (List.append_inj' hh rfl).1

/-- What the resource shows in the end it has shown all along, or some event
    brought it and all later ones left it there. -/
theorem Linked.brought {β : Type} (f : σ → β) {y : β} {a b : σ} {h : List (Event S σ Req Env)}
    (hl : Linked a h b) (hb : f b = y) :
    (f a = y ∧ ∀ ev ∈ h, f ev.post = y) ∨
    ∃ past ev later, h = past ++ ev :: later ∧ f ev.pre ≠ y ∧ f ev.post = y ∧
      ∀ ev' ∈ later, f ev'.post = y := by
  induction h generalizing a with
  | nil =>
      obtain rfl : a = b := hl
      exact .inl ⟨hb, nofun⟩
  | cons ev h ih =>
      obtain ⟨rfl, hl⟩ := hl
      rcases ih hl with ⟨hpost, hall⟩ | ⟨past, ev', later, rfl, hpre, hpost, hall⟩
      · by_cases hpre : f ev.pre = y
        · exact .inl ⟨hpre, List.forall_mem_cons.mpr ⟨hpost, hall⟩⟩
        · exact .inr ⟨[], ev, h, rfl, hpre, hpost, hall⟩
      · exact .inr ⟨ev :: past, ev', later, rfl, hpre, hpost, hall⟩

end Machine

end Webstore.Sched
