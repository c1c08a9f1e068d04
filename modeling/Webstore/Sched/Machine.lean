/-
  Webstore.Sched.Machine

  Any number of threads on one shared resource.  A scheduler chooses at each
  step to start a thread for a new request, to let one thread take its next
  step, or to let the environment act; `Run` is every interleaving it can
  choose.  In sequential mode a request starts only when all earlier ones
  have answered.

  A run records a history: one event for every observed operation and every
  environment step, with the resource before and after it.  Taking or giving
  back the mutex, starting a thread and reading the resource by an unobserved
  operation leave no event.
-/
import Webstore.Sched.Prog

namespace Webstore.Sched

/-- What a run leaves in its history. -/
inductive Event (S : Sig) (σ Req Env : Type) where
  | op (i : Nat) (r : Req) (o : S.Op) (v : S.Ret o) (pre post : σ)
  | env (e : Env) (pre post : σ)

namespace Event

variable {S : Sig} {σ Req Env : Type}

/-- The thread an event belongs to; environment steps belong to none. -/
def tid : Event S σ Req Env → Option Nat
  | .op i .. => some i
  | .env .. => none

/-- The resource before the event. -/
def pre : Event S σ Req Env → σ
  | .op _ _ _ _ σ _ => σ
  | .env _ σ _ => σ

/-- The resource after the event. -/
def post : Event S σ Req Env → σ
  | .op _ _ _ _ _ σ => σ
  | .env _ _ σ => σ

@[simp] theorem tid_op (i : Nat) (r : Req) (o : S.Op) (v : S.Ret o) (pre post : σ) :
    (Event.op i r o v pre post : Event S σ Req Env).tid = some i := rfl

@[simp] theorem tid_env (e : Env) (pre post : σ) :
    (Event.env e pre post : Event S σ Req Env).tid = none := rfl

@[simp] theorem pre_op (i : Nat) (r : Req) (o : S.Op) (v : S.Ret o) (pre post : σ) :
    (Event.op i r o v pre post : Event S σ Req Env).pre = pre := rfl

@[simp] theorem pre_env (e : Env) (pre post : σ) :
    (Event.env e pre post : Event S σ Req Env).pre = pre := rfl

@[simp] theorem post_op (i : Nat) (r : Req) (o : S.Op) (v : S.Ret o) (pre post : σ) :
    (Event.op i r o v pre post : Event S σ Req Env).post = post := rfl

@[simp] theorem post_env (e : Env) (pre post : σ) :
    (Event.env e pre post : Event S σ Req Env).post = post := rfl

end Event

/-- A thread: the request it serves and what it has still to do. -/
structure Thread (S : Sig) (Req Resp : Type) where
  req : Req
  code : Prog S Resp

/-- The resource, the thread that holds the mutex, and the threads in the
    order they were started. -/
structure Sys (S : Sig) (σ Req Resp : Type) where
  shared : σ
  holder : Option Nat
  threads : List (Thread S Req Resp)

/-- What a scheduler can choose. -/
inductive Label (Req Env Choice : Type) where
  | spawn (r : Req)
  | act (i : Nat) (c : Choice)
  | env (e : Env)

/-- A system of threads: the program that serves each request, what each
    operation does to the resource (a `Choice` resolves what the resource may
    decide by itself), what the environment does to it, which operations are
    recorded, and whether requests are served concurrently. -/
structure Machine (S : Sig) (σ Req Resp Env Choice : Type) where
  body : Req → Prog S Resp
  exec : (o : S.Op) → σ → Choice → Option (S.Ret o × σ)
  env : Env → σ → Option σ
  observed : S.Op → Bool
  concurrent : Bool

namespace Machine

variable {S : Sig} {σ Req Resp Env Choice : Type}

/-- No thread has been started yet. -/
def init (s : σ) : Sys S σ Req Resp := ⟨s, none, []⟩

variable (M : Machine S σ Req Resp Env Choice)

/-- The next step of thread `i`, which serves `r`. -/
def stepThread (s : Sys S σ Req Resp) (i : Nat) (r : Req) (c : Choice) :
    Prog S Resp → Option (List (Event S σ Req Env) × Sys S σ Req Resp)
  | .done _ => none
  | .lock k =>
      if s.holder.isNone then
        some ([], { s with holder := some i, threads := s.threads.set i ⟨r, k⟩ })
      else none
  | .unlock k => some ([], { s with holder := none, threads := s.threads.set i ⟨r, k⟩ })
  | .op o k =>
      (M.exec o s.shared c).map fun vs =>
        (if M.observed o then [.op i r o vs.1 s.shared vs.2] else [],
          { s with shared := vs.2, threads := s.threads.set i ⟨r, k vs.1⟩ })

/-- One step of the system, with the events it records. -/
def step (s : Sys S σ Req Resp) :
    Label Req Env Choice → Option (List (Event S σ Req Env) × Sys S σ Req Resp)
  | .spawn r =>
      if M.concurrent || s.threads.all (·.code.isDone) then
        some ([], { s with threads := s.threads ++ [⟨r, M.body r⟩] })
      else none
  | .act i c => s.threads[i]?.bind fun t => M.stepThread s i t.req c t.code
  | .env e => (M.env e s.shared).map fun σ' => ([.env e s.shared σ'], { s with shared := σ' })

/-- Every interleaving from `s₀`, with its history. -/
inductive Run (s₀ : Sys S σ Req Resp) :
    List (Event S σ Req Env) → Sys S σ Req Resp → Prop where
  | start : Run s₀ [] s₀
  | step {h : List (Event S σ Req Env)} {s s' : Sys S σ Req Resp} {l : Label Req Env Choice}
      {es : List (Event S σ Req Env)} (run : Run s₀ h s) (hs : M.step s l = some (es, s')) :
      Run s₀ (h ++ es) s'

/-- Follow the scheduler's choices one after the other. -/
def follow (s : Sys S σ Req Resp) :
    List (Label Req Env Choice) → Option (List (Event S σ Req Env) × Sys S σ Req Resp)
  | [] => some ([], s)
  | l :: ls => (M.step s l).bind fun es => (follow es.2 ls).map fun hs => (es.1 ++ hs.1, hs.2)

variable {M}

/-- Runs compose. -/
theorem Run.trans {s₀ s s' : Sys S σ Req Resp} {h h' : List (Event S σ Req Env)}
    (h₁ : M.Run s₀ h s) (h₂ : M.Run s h' s') : M.Run s₀ (h ++ h') s' := by
  induction h₂ with
  | start => simpa using h₁
  | step _ hs ih =>
      rw [← List.append_assoc]
      exact .step ih hs

/-- What the scheduler's choices lead to is reached by a run. -/
theorem run_of_follow {s s' : Sys S σ Req Resp} {ls : List (Label Req Env Choice)}
    {h : List (Event S σ Req Env)} (hf : M.follow s ls = some (h, s')) : M.Run s h s' := by
  induction ls generalizing s h with
  | nil =>
      simp only [follow, Option.some.injEq, Prod.mk.injEq] at hf
      obtain ⟨rfl, rfl⟩ := hf
      exact .start
  | cons l ls ih =>
      simp only [follow, Option.bind_eq_some_iff, Option.map_eq_some_iff] at hf
      obtain ⟨es, hs, hs', hrest, heq⟩ := hf
      obtain ⟨rfl, rfl⟩ := Prod.mk.inj heq
      exact Run.trans (.step (h := []) .start hs) (ih hrest)

/-- Where the scheduler's choices lead, a run leads, and what can be computed
    of the one holds of the other. -/
theorem exists_run_of_follow {s : Sys S σ Req Resp} {ls : List (Label Req Env Choice)} {β : Type}
    {f : List (Event S σ Req Env) × Sys S σ Req Resp → β} {b : β}
    (hf : (M.follow s ls).map f = some b) : ∃ h s', M.Run s h s' ∧ f (h, s') = b := by
  obtain ⟨⟨h, s'⟩, hrun, hb⟩ := Option.map_eq_some_iff.mp hf
  exact ⟨h, s', run_of_follow hrun, hb⟩

/-- The same for a run in two parts. -/
theorem exists_runs_of_follow {s : Sys S σ Req Resp} {ls₁ ls₂ : List (Label Req Env Choice)}
    {β : Type}
    {f : (r₁ r₂ : List (Event S σ Req Env) × Sys S σ Req Resp) → β} {b : β}
    (hf : ((M.follow s ls₁).bind fun r₁ => (M.follow r₁.2 ls₂).map fun r₂ => f r₁ r₂) = some b) :
    ∃ h₁ s₁ h₂ s₂, M.Run s h₁ s₁ ∧ M.Run s₁ h₂ s₂ ∧ f (h₁, s₁) (h₂, s₂) = b := by
  obtain ⟨⟨h₁, s₁⟩, hf₁, hf₂⟩ := Option.bind_eq_some_iff.mp hf
  obtain ⟨⟨h₂, s₂⟩, hf₂, hb⟩ := Option.map_eq_some_iff.mp hf₂
  exact ⟨h₁, s₁, h₂, s₂, run_of_follow hf₁, run_of_follow hf₂, hb⟩

/-- Read one answer off the list of all of them. -/
theorem answered_of_map {s : Sys S σ Req Resp} {as : List (Option Resp)}
    (h : s.threads.map (·.code.answer?) = as) {i : Nat} {a : Resp} (ha : as[i]? = some (some a)) :
    ∃ t, s.threads[i]? = some t ∧ t.code = .done a := by
  rw [← h, List.getElem?_map, Option.map_eq_some_iff] at ha
  obtain ⟨t, ht, hc⟩ := ha
  exact ⟨t, ht, Prog.answer?_eq_some.mp hc⟩

/-- Everything one step of the system can do. -/
theorem step_cases {s s' : Sys S σ Req Resp} {l : Label Req Env Choice}
    {es : List (Event S σ Req Env)} (h : M.step s l = some (es, s')) :
    (∃ r, (M.concurrent = true ∨ ∀ t ∈ s.threads, t.code.isDone = true) ∧ es = [] ∧
      s' = { s with threads := s.threads ++ [⟨r, M.body r⟩] }) ∨
    (∃ i r k, s.threads[i]? = some ⟨r, .lock k⟩ ∧ s.holder = none ∧ es = [] ∧
      s' = { s with holder := some i, threads := s.threads.set i ⟨r, k⟩ }) ∨
    (∃ i r k, s.threads[i]? = some ⟨r, .unlock k⟩ ∧ es = [] ∧
      s' = { s with holder := none, threads := s.threads.set i ⟨r, k⟩ }) ∨
    (∃ i r o k c v σ', s.threads[i]? = some ⟨r, .op o k⟩ ∧ M.exec o s.shared c = some (v, σ') ∧
      es = (if M.observed o then [.op i r o v s.shared σ'] else []) ∧
      s' = { s with shared := σ', threads := s.threads.set i ⟨r, k v⟩ }) ∨
    (∃ e σ', M.env e s.shared = some σ' ∧ es = [.env e s.shared σ'] ∧
      s' = { s with shared := σ' }) := by
  cases l with
  | spawn r =>
      simp only [step, Bool.or_eq_true, List.all_eq_true, Option.ite_none_right_eq_some,
        Option.some.injEq, Prod.mk.injEq] at h
      obtain ⟨hm, rfl, rfl⟩ := h
      exact .inl ⟨r, hm, rfl, rfl⟩
  | act i c =>
      simp only [step, Option.bind_eq_some_iff] at h
      obtain ⟨⟨r, p⟩, ht, hp⟩ := h
      cases p with
      | done a => cases hp
      | lock k =>
          simp only [stepThread, Option.isNone_iff_eq_none, Option.ite_none_right_eq_some,
            Option.some.injEq, Prod.mk.injEq] at hp
          obtain ⟨hn, rfl, rfl⟩ := hp
          exact .inr (.inl ⟨i, r, k, ht, hn, rfl, rfl⟩)
      | unlock k =>
          simp only [stepThread, Option.some.injEq, Prod.mk.injEq] at hp
          obtain ⟨rfl, rfl⟩ := hp
          exact .inr (.inr (.inl ⟨i, r, k, ht, rfl, rfl⟩))
      | op o k =>
          simp only [stepThread, Option.map_eq_some_iff] at hp
          obtain ⟨⟨v, σ'⟩, hx, heq⟩ := hp
          obtain ⟨rfl, rfl⟩ := Prod.mk.inj heq
          exact .inr (.inr (.inr (.inl ⟨i, r, o, k, c, v, σ', ht, hx, rfl, rfl⟩)))
  | env e =>
      simp only [step, Option.map_eq_some_iff] at h
      obtain ⟨σ', he, heq⟩ := h
      obtain ⟨rfl, rfl⟩ := Prod.mk.inj heq
      exact .inr (.inr (.inr (.inr ⟨e, σ', he, rfl, rfl⟩)))

/-- An invariant of the history and the state that every step keeps holds in
    every state a run reaches. -/
theorem Run.induct {s₀ : Sys S σ Req Resp}
    {P : List (Event S σ Req Env) → Sys S σ Req Resp → Prop} (h₀ : P [] s₀)
    (hstep : ∀ h s l es s', P h s → M.step s l = some (es, s') → P (h ++ es) s')
    {h : List (Event S σ Req Env)} {s : Sys S σ Req Resp} (run : M.Run s₀ h s) : P h s := by
  induction run with
  | start => exact h₀
  | step _ hs ih => exact hstep _ _ _ _ _ ih hs

/-- An event that a step of the machine can leave. -/
def Genuine (M : Machine S σ Req Resp Env Choice) : Event S σ Req Env → Prop
  | .op _ _ o v pre post => ∃ c, M.exec o pre c = some (v, post)
  | .env e pre post => M.env e pre = some post

/-- Every event of a run is one that the machine can make. -/
theorem Run.genuine {s₀ s : Sys S σ Req Resp} {h : List (Event S σ Req Env)}
    (run : M.Run s₀ h s) : ∀ ev ∈ h, M.Genuine ev := by
  refine Run.induct (P := fun h _ => ∀ ev ∈ h, M.Genuine ev) (by simp) ?_ run
  intro h s l es s' ih hs ev hm
  rcases List.mem_append.mp hm with hm | hm
  · exact ih ev hm
  · rcases step_cases hs with
      ⟨r, -, rfl, -⟩ | ⟨i, r, k, -, -, rfl, -⟩ | ⟨i, r, k, -, rfl, -⟩ |
      ⟨i, r, o, k, c, v, σ', -, hx, rfl, -⟩ | ⟨e, σ', he, rfl, -⟩
    -- only operations and the environment are recorded
    · cases hm
    · cases hm
    · cases hm
    · split at hm
      · rw [List.mem_singleton.mp hm]
        exact ⟨c, hx⟩
      · cases hm
    · rw [List.mem_singleton.mp hm]
      exact he

/-- Each event starts from where the one before it ended. -/
def Linked : σ → List (Event S σ Req Env) → σ → Prop
  | a, [], b => a = b
  | a, ev :: h, b => ev.pre = a ∧ Linked ev.post h b

theorem linked_append {a b : σ} {h h' : List (Event S σ Req Env)} :
    Linked a (h ++ h') b ↔ ∃ c, Linked a h c ∧ Linked c h' b := by
  induction h generalizing a with
  | nil => simp [Linked]
  | cons ev h ih => simp [Linked, ih, and_assoc]

/-- A history accounts for everything that happened to the resource. -/
theorem Run.linked
    (quiet : ∀ {o s c v σ'}, M.observed o = false → M.exec o s c = some (v, σ') → σ' = s)
    {s₀ s : Sys S σ Req Resp} {h : List (Event S σ Req Env)} (run : M.Run s₀ h s) :
    Linked s₀.shared h s.shared := by
  refine Run.induct (P := fun h s => Linked s₀.shared h s.shared) rfl ?_ run
  intro h s l es s' ih hs
  refine linked_append.mpr ⟨s.shared, ih, ?_⟩
  rcases step_cases hs with
    ⟨r, -, rfl, rfl⟩ | ⟨i, r, k, -, -, rfl, rfl⟩ | ⟨i, r, k, -, rfl, rfl⟩ |
    ⟨i, r, o, k, c, v, σ', -, hx, rfl, rfl⟩ | ⟨e, σ', -, rfl, rfl⟩
  · rfl
  · rfl
  · rfl
  · by_cases ho : M.observed o = true
    · simp [ho, Linked]
    · simp [ho, Linked, quiet (by simpa using ho) hx]
  · simp [Linked]

end Machine

end Webstore.Sched
