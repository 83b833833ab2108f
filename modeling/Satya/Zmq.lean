import Satya.SyncHonesty
/-!
# Zmq — block wakes (`zmq.rs`, and the wait of `sync/mod.rs`, `run`)

The block listener and the steady-state loop meet in a channel of capacity 1.  They run interleaved in any way, on one
clock; the runtime gets to a task that is ready within `lag`, and a tick takes at most `maxTick`.  A heard block starts
a tick after it, no more than one, and polling goes on whatever the listener does (`wake_schedule`).
-/
namespace Satya
namespace Zmq

open Sync (SyncConfig TickEnv Task steadyTick steadyRun)

/-! ## The listener -/

def backoffStart : ℕ := 10 ^ 9

def backoffMax : ℕ := 30 * 10 ^ 9

/-- Where `spawn_block_listener` is: in `connect` or `subscribe`, in `recv`, or asleep. -/
inductive Session where
  | connecting
  | receiving
  | asleep (since : ℕ)
deriving DecidableEq

/-- `ended` says of the sessions so far, newest first, whether they had connected. -/
structure Listener where
  backoff : ℕ
  session : Session
  ended : List Bool

def Listener.fresh : Listener := ⟨backoffStart, .connecting, []⟩

def Listener.connect (l : Listener) : Listener := { l with session := .receiving }

/-- The end of `run_once`, and the sleep after it. -/
def Listener.endSession (connected : Bool) (now : ℕ) (l : Listener) : Listener where
  backoff := if connected then backoffStart else l.backoff
  session := .asleep now
  ended := connected :: l.ended

def Listener.retry (l : Listener) : Listener := { l with backoff := min (l.backoff * 2) backoffMax, session := .connecting }

/-- The steps of `spawn_block_listener` apart from a received block. -/
inductive Listener.Step (now : ℕ) (l : Listener) : Listener → Prop
  | connected : l.session = .connecting → Listener.Step now l l.connect
  | refused : l.session = .connecting → Listener.Step now l (l.endSession false now)
  | dropped : l.session = .receiving → Listener.Step now l (l.endSession true now)
  | retried (since : ℕ) : l.session = .asleep since → since + l.backoff ≤ now → Listener.Step now l l.retry

inductive Listener.Reached : Listener → Prop
  | fresh : Listener.Reached Listener.fresh
  | step {l l' : Listener} (now : ℕ) : Listener.Reached l → Listener.Step now l l' → Listener.Reached l'

/-! ## The channel and the loop -/

/-- `try_send` on the channel of capacity 1; a pending wake keeps the instant it was sent at. -/
def trySend (now : ℕ) : Option ℕ → Option ℕ
  | none => some now
  | some sent => some sent

inductive Loop where
  | waiting (since : ℕ)
  | ticking (since : ℕ)
deriving DecidableEq

/-- The poll interval, and what is assumed of the runtime: how late it gets to a task, and how long a tick takes. -/
structure Pace where
  pollInterval : ℕ
  lag : ℕ
  maxTick : ℕ

/-- The steady state: the listener, the channel, the loop and its task, and what happened so far, newest first. -/
structure System where
  now : ℕ
  listener : Listener
  wake : Option ℕ
  loop : Loop
  task : Task
  heard : List ℕ
  starts : List ℕ
  polls : ℕ
  wakes : ℕ
  ticks : List TickEnv

/-- The steady-state loop, entered. -/
def System.enter (now : ℕ) (listener : Listener) (wake : Option ℕ) (task : Task) : System :=
  ⟨now, listener, wake, .waiting now, task, [], [], 0, 0, []⟩

/-- How late it may become before the loop moves. -/
def Loop.latest (p : Pace) (wake : Option ℕ) : Loop → ℕ
  | .waiting since =>
    match wake with
    | none => since + p.pollInterval + p.lag
    | some sent => min (since + p.pollInterval) (max sent since) + p.lag
  | .ticking since => since + p.maxTick

inductive Step (p : Pace) (cfg : SyncConfig) (s : System) : System → Prop
  | pass (d : ℕ) : s.now + d ≤ s.loop.latest p s.wake →
      (∀ since, s.listener.session = .asleep since → s.now + d ≤ since + s.listener.backoff + p.lag) →
      Step p cfg s { s with now := s.now + d }
  | listened (l : Listener) : Listener.Step s.now s.listener l → Step p cfg s { s with listener := l }
  | heard : s.listener.session = .receiving →
      Step p cfg s { s with wake := trySend s.now s.wake, heard := s.now :: s.heard }
  -- the two branches of `select!`; when both are ready, either may be taken
  | polled (since : ℕ) : s.loop = .waiting since → since + p.pollInterval ≤ s.now →
      Step p cfg s { s with loop := .ticking s.now, starts := s.now :: s.starts, polls := s.polls + 1 }
  | woken (since sent : ℕ) : s.loop = .waiting since → s.wake = some sent →
      Step p cfg s { s with loop := .ticking s.now, wake := none, starts := s.now :: s.starts, wakes := s.wakes + 1 }
  | ticked (since : ℕ) (env : TickEnv) : s.loop = .ticking since →
      Step p cfg s { s with
        loop := .waiting s.now, task := steadyTick cfg env s.task, ticks := s.ticks ++ [env] }

inductive Reached (p : Pace) (cfg : SyncConfig) (s₀ : System) : System → Prop
  | enter : Reached p cfg s₀ s₀
  | step {s s' : System} : Reached p cfg s₀ s → Step p cfg s s' → Reached p cfg s₀ s'

variable {p : Pace} {cfg : SyncConfig} {s₀ s s' : System}

theorem Reached.induct {P : System → Prop} (hs : Reached p cfg s₀ s) (henter : P s₀)
    (hstep : ∀ s s', P s → Step p cfg s s' → P s') : P s := by
  induction hs with
  | enter => exact henter
  | step _ h ih => exact hstep _ _ ih h

/-! ## The clock -/

/-- What the clock reads, against the loop and the channel. -/
structure Timed (p : Pace) (s : System) : Prop where
  late : s.now ≤ s.loop.latest p s.wake
  since_le : ∀ since, s.loop = .waiting since ∨ s.loop = .ticking since → since ≤ s.now
  sent_le : ∀ sent ∈ s.wake, sent ≤ s.now

theorem Timed.step (h : Timed p s) (hstep : Step p cfg s s') : Timed p s' := by
  cases hstep with
  | pass d hlate _ =>
    exact ⟨hlate, fun since hsince => Nat.le_add_right_of_le (h.since_le since hsince),
      fun sent hsent => Nat.le_add_right_of_le (h.sent_le sent hsent)⟩
  | listened l _ => exact ⟨h.late, h.since_le, h.sent_le⟩
  | heard _ =>
    refine ⟨?_, h.since_le, ?_⟩
    · have hlate := h.late
      cases hwake : s.wake with
      | some sent => rwa [hwake] at hlate
      | none =>
        rw [hwake] at hlate
        cases hloop : s.loop with
        | ticking since => rwa [hloop] at hlate
        | waiting since =>
          rw [hloop] at hlate
          have hsince := h.since_le since (Or.inl hloop)
          simp only [Loop.latest, trySend] at hlate ⊢
          omega
    · cases hwake : s.wake with
      | some sent => exact fun x hx => h.sent_le x (hwake ▸ hx)
      | none =>
        rintro x hx
        cases hx
        exact le_refl _
  | polled since hloop hdue =>
    exact ⟨Nat.le_add_right _ _, by simp, h.sent_le⟩
  | woken since sent hloop hwake => exact ⟨Nat.le_add_right _ _, by simp, by simp⟩
  | ticked since env hloop =>
    refine ⟨?_, by simp, h.sent_le⟩
    cases hwake : s.wake with
    | none => simp only [Loop.latest]; omega
    | some sent => simp only [Loop.latest]; omega

/-- A loop that waits has waited no longer than the poll interval, nor than a wake has been pending. -/
theorem Timed.waiting (h : Timed p s) {since : ℕ} (hloop : s.loop = .waiting since) :
    s.now ≤ since + p.pollInterval + p.lag ∧ ∀ sent, s.wake = some sent → s.now ≤ max sent since + p.lag := by
  have hlate := h.late
  rw [hloop] at hlate
  cases hwake : s.wake with
  | none =>
    rw [hwake] at hlate
    exact ⟨hlate, fun _ h => nomatch h⟩
  | some sent =>
    rw [hwake] at hlate
    simp only [Loop.latest] at hlate
    refine ⟨by omega, fun x hx => ?_⟩
    cases hx
    omega

theorem Timed.ticking (h : Timed p s) {since : ℕ} (hloop : s.loop = .ticking since) : s.now ≤ since + p.maxTick := by
  have hlate := h.late
  rwa [hloop] at hlate

/-! ## Heard blocks -/

/-- A tick for the block heard at `τ` is still to start: a wake as old is pending, and the loop is in a tick that had
started before, or waits since the end of one that had. -/
def Awaited (p : Pace) (s : System) (τ : ℕ) : Prop :=
  (∃ sent, s.wake = some sent ∧ sent ≤ τ) ∧
    ((∃ since, s.loop = .ticking since ∧ since ≤ τ) ∨ ∃ since, s.loop = .waiting since ∧ since ≤ τ + p.maxTick)

def Answered (p : Pace) (s : System) (τ : ℕ) : Prop := ∃ x ∈ s.starts, τ ≤ x ∧ x ≤ τ + p.maxTick + p.lag

def Heeded (p : Pace) (s : System) : Prop := ∀ τ ∈ s.heard, τ ≤ s.now ∧ (Answered p s τ ∨ Awaited p s τ)

/-- The start of a tick answers every block that is awaited. -/
theorem Awaited.answered {τ since : ℕ} (h : Awaited p s τ) (htimed : Timed p s) (hle : τ ≤ s.now)
    (hloop : s.loop = .waiting since) : τ ≤ s.now ∧ s.now ≤ τ + p.maxTick + p.lag := by
  obtain ⟨⟨sent, hwake, hsent⟩, ⟨b, hb, -⟩ | ⟨w, hw, hwle⟩⟩ := h
  · rw [hloop] at hb
    cases hb
  · have hlate := (htimed.waiting hw).2 sent hwake
    exact ⟨hle, by omega⟩

theorem Heeded.started {loop : Loop} {wake : Option ℕ} {polls wakes since : ℕ} (h : Heeded p s) (htimed : Timed p s)
    (hloop : s.loop = .waiting since) :
    Heeded p { s with loop := loop, wake := wake, starts := s.now :: s.starts, polls := polls, wakes := wakes } := by
  intro τ hτ
  obtain ⟨hle, ⟨x, hx, hxle⟩ | hawaited⟩ := h τ hτ
  · exact ⟨hle, Or.inl ⟨x, List.mem_cons_of_mem _ hx, hxle⟩⟩
  · exact ⟨hle, Or.inl ⟨s.now, List.mem_cons_self, hawaited.answered htimed hle hloop⟩⟩

theorem Heeded.step (h : Heeded p s) (htimed : Timed p s) (hstep : Step p cfg s s') : Heeded p s' := by
  cases hstep with
  | pass d _ _ => exact fun τ hτ => ⟨Nat.le_add_right_of_le (h τ hτ).1, (h τ hτ).2⟩
  | listened l _ => exact h
  | heard _ =>
    -- a wake that was pending already is older than the block
    have hpending : ∃ sent, trySend s.now s.wake = some sent ∧ sent ≤ s.now := by
      cases hwake : s.wake with
      | none => exact ⟨s.now, rfl, le_refl _⟩
      | some sent => exact ⟨sent, rfl, htimed.sent_le sent hwake⟩
    intro τ hτ
    obtain rfl | hτ := List.mem_cons.1 hτ
    · refine ⟨le_refl _, Or.inr ⟨hpending, ?_⟩⟩
      cases hloop : s.loop with
      | ticking since => exact Or.inl ⟨since, rfl, htimed.since_le since (Or.inr hloop)⟩
      | waiting since => exact Or.inr ⟨since, rfl, Nat.le_add_right_of_le (htimed.since_le since (Or.inl hloop))⟩
    · obtain ⟨hle, hanswered | ⟨⟨sent, hwake, hsent⟩, hloop⟩⟩ := h τ hτ
      · exact ⟨hle, Or.inl hanswered⟩
      · exact ⟨hle, Or.inr ⟨⟨sent, by rw [hwake]; rfl, hsent⟩, hloop⟩⟩
  | polled since hloop _ => exact h.started htimed hloop
  | woken since sent hloop _ => exact h.started htimed hloop
  | ticked since env hloop =>
    intro τ hτ
    obtain ⟨hle, hanswered | ⟨hwake, ⟨b, hb, hbτ⟩ | ⟨w, hw, -⟩⟩⟩ := h τ hτ
    · exact ⟨hle, Or.inl hanswered⟩
    · have hlate := htimed.ticking hb
      exact ⟨hle, Or.inr ⟨hwake, Or.inr ⟨s.now, rfl, by omega⟩⟩⟩
    · rw [hloop] at hw
      cases hw

/-! ## How many ticks -/

/-- The longest from one start to the next. -/
def Pace.period (p : Pace) : ℕ := p.pollInterval + p.lag + p.maxTick

/-- Where the loop stands, in time: a wait ends a tick, and a tick ends by its latest end. -/
def Loop.reach (p : Pace) : Loop → ℕ
  | .waiting since => since
  | .ticking since => since + p.maxTick

/-- The ticks that have started and not ended. -/
def Loop.current : Loop → ℕ
  | .waiting _ => 0
  | .ticking _ => 1

structure Counted (p : Pace) (cfg : SyncConfig) (s₀ s : System) : Prop where
  starts_eq : s.starts.length = s.polls + s.wakes
  wakes_le : s.wakes + s.wake.toList.length ≤ s.heard.length + s₀.wake.toList.length
  polls_le : ∀ since, s.loop = .waiting since ∨ s.loop = .ticking since → s₀.now + s.polls * p.pollInterval ≤ since
  reach_le : s.loop.reach p ≤ s₀.now + s.starts.length * p.period
  task_eq : s.task = steadyRun cfg s.ticks s₀.task
  ticks_eq : s.starts.length = s.ticks.length + s.loop.current

theorem length_trySend_le (now : ℕ) (wake : Option ℕ) : (trySend now wake).toList.length ≤ wake.toList.length + 1 := by
  cases wake <;> simp [trySend]

theorem Counted.step (h : Counted p cfg s₀ s) (htimed : Timed p s) (hstep : Step p cfg s s') : Counted p cfg s₀ s' := by
  cases hstep with
  | pass d _ _ => exact ⟨h.starts_eq, h.wakes_le, h.polls_le, h.reach_le, h.task_eq, h.ticks_eq⟩
  | listened l _ => exact ⟨h.starts_eq, h.wakes_le, h.polls_le, h.reach_le, h.task_eq, h.ticks_eq⟩
  | heard _ =>
    refine ⟨h.starts_eq, ?_, h.polls_le, h.reach_le, h.task_eq, h.ticks_eq⟩
    have hwakes := h.wakes_le
    have hsend := length_trySend_le s.now s.wake
    simp only [List.length_cons]
    omega
  | polled since hloop hdue =>
    have hpolls := h.polls_le since (Or.inl hloop)
    have hreach := h.reach_le
    have hticks := h.ticks_eq
    have hlate := (htimed.waiting hloop).1
    rw [hloop] at hreach hticks
    refine ⟨?_, h.wakes_le, ?_, ?_, h.task_eq, ?_⟩
    · rw [List.length_cons, h.starts_eq, Nat.add_right_comm]
    · rintro x (hx | hx) <;> cases hx
      rw [Nat.add_mul, Nat.one_mul]
      omega
    · simp only [Loop.reach, List.length_cons, Nat.add_mul, Nat.one_mul, Pace.period] at hreach ⊢
      omega
    · simp only [Loop.current, List.length_cons] at hticks ⊢
      omega
  | woken since sent hloop hwake =>
    have hpolls := h.polls_le since (Or.inl hloop)
    have hsince := htimed.since_le since (Or.inl hloop)
    have hreach := h.reach_le
    have hticks := h.ticks_eq
    have hwakes := h.wakes_le
    have hlate := (htimed.waiting hloop).1
    rw [hloop] at hreach hticks
    rw [hwake] at hwakes
    refine ⟨?_, ?_, ?_, ?_, h.task_eq, ?_⟩
    · rw [List.length_cons, h.starts_eq, Nat.add_assoc]
    · simpa using hwakes
    · rintro x (hx | hx) <;> cases hx
      exact hpolls.trans hsince
    · simp only [Loop.reach, List.length_cons, Nat.add_mul, Nat.one_mul, Pace.period] at hreach ⊢
      omega
    · simp only [Loop.current, List.length_cons] at hticks ⊢
      omega
  | ticked since env hloop =>
    have hpolls := h.polls_le since (Or.inr hloop)
    have hsince := htimed.since_le since (Or.inr hloop)
    have hreach := h.reach_le
    have hticks := h.ticks_eq
    have hlate := htimed.ticking hloop
    rw [hloop] at hreach hticks
    refine ⟨h.starts_eq, h.wakes_le, ?_, ?_, ?_, ?_⟩
    · rintro x (hx | hx) <;> cases hx
      exact hpolls.trans hsince
    · simp only [Loop.reach] at hreach ⊢
      omega
    · rw [h.task_eq, steadyRun, steadyRun, List.foldl_append]
      rfl
    · simp only [Loop.current, List.length_append, List.length_singleton] at hticks ⊢
      exact hticks

/-- **What block wakes do and what they cost.**  In any interleaving of the listener, the channel and the loop: a tick
starts after each heard block, and no later than one tick and the lag; a tick is due to the poll interval or to a heard
block of its own; the loop goes on ticking whatever the listener does; and what it did is a run of ticks. -/
theorem wake_schedule (p : Pace) (cfg : SyncConfig) (now : ℕ) (listener : Listener) (wake : Option ℕ) (task : Task)
    (s : System) (hwake : ∀ sent ∈ wake, sent ≤ now) (hs : Reached p cfg (System.enter now listener wake task) s) :
    (∀ τ ∈ s.heard, τ + p.maxTick + p.lag < s.now → ∃ x ∈ s.starts, τ ≤ x ∧ x ≤ τ + p.maxTick + p.lag) ∧
      (s.starts.length = s.polls + s.wakes ∧ now + s.polls * p.pollInterval ≤ s.now ∧
        s.wakes + s.wake.toList.length ≤ s.heard.length + wake.toList.length) ∧
      s.now ≤ now + (s.starts.length + 1) * p.period ∧
      s.task = steadyRun cfg s.ticks task ∧ s.starts.length ≤ s.ticks.length + 1 := by
  have hinv : Timed p s ∧ Heeded p s ∧ Counted p cfg (System.enter now listener wake task) s := by
    refine hs.induct (P := fun s => Timed p s ∧ Heeded p s ∧ Counted p cfg (System.enter now listener wake task) s)
      ⟨?_, ?_, ?_⟩ (fun s s' h hstep => ⟨h.1.step hstep, h.2.1.step h.1 hstep, h.2.2.step h.1 hstep⟩)
    · refine ⟨?_, by simp [System.enter], hwake⟩
      cases wake with
      | none => simp only [System.enter, Loop.latest]; omega
      | some sent => simp only [System.enter, Loop.latest]; omega
    · exact fun τ hτ => absurd hτ List.not_mem_nil
    · exact ⟨rfl, by simp [System.enter], by simp [System.enter], by simp [System.enter, Loop.reach], rfl, rfl⟩
  obtain ⟨htimed, hheeded, hcounted⟩ := hinv
  refine ⟨?_, ⟨hcounted.starts_eq, ?_, hcounted.wakes_le⟩, ?_, hcounted.task_eq, ?_⟩
  · intro τ hτ hlate
    obtain ⟨-, hanswered | ⟨⟨sent, hsent, hsentle⟩, ⟨b, hb, hbτ⟩ | ⟨w, hw, hwτ⟩⟩⟩ := hheeded τ hτ
    · exact hanswered
    · have := htimed.ticking hb
      omega
    · have := (htimed.waiting hw).2 sent hsent
      omega
  · cases hloop : s.loop with
    | waiting since => exact (hcounted.polls_le since (Or.inl hloop)).trans (htimed.since_le since (Or.inl hloop))
    | ticking since => exact (hcounted.polls_le since (Or.inr hloop)).trans (htimed.since_le since (Or.inr hloop))
  · have hreach := hcounted.reach_le
    rw [Nat.add_mul, Nat.one_mul]
    unfold Pace.period at hreach ⊢
    cases hloop : s.loop with
    | waiting since =>
      have hlate := (htimed.waiting hloop).1
      simp only [hloop, Loop.reach, System.enter] at hreach
      omega
    | ticking since =>
      have hlate := htimed.ticking hloop
      simp only [hloop, Loop.reach, System.enter] at hreach
      omega
  · rw [hcounted.ticks_eq]
    cases s.loop <;> simp [Loop.current]

/-- A block that is heard 2 after the loop is entered, and the tick that it starts. -/
def wokenSystem : System where
  now := 5
  listener := Listener.fresh.connect
  wake := none
  loop := .waiting 3
  task := steadyTick Sync.idleConfig Sync.idleEnv (Task.init .bitcoin)
  heard := [2]
  starts := [2]
  polls := 0
  wakes := 1
  ticks := [Sync.idleEnv]

theorem reached_wokenSystem : Reached ⟨10, 0, 2⟩ Sync.idleConfig
    (System.enter 0 Listener.fresh none (Task.init .bitcoin)) wokenSystem := by
  have hconnected := (@Reached.enter ⟨10, 0, 2⟩ Sync.idleConfig
    (System.enter 0 Listener.fresh none (Task.init .bitcoin))).step (.listened _ (.connected rfl))
  have hlater := hconnected.step (.pass 2 (by decide) (by simp [Listener.connect]))
  have hwoken := (hlater.step (.heard rfl)).step (.woken 0 2 rfl rfl)
  have hticked := (hwoken.step (.pass 1 (by decide) (by simp [Listener.connect]))).step (.ticked 2 Sync.idleEnv rfl)
  exact hticked.step (.pass 2 (by decide) (by simp [Listener.connect]))

theorem wake_schedule_woken : (∃ x ∈ wokenSystem.starts, 2 ≤ x ∧ x ≤ 2 + 2 + 0) ∧
    wokenSystem.wakes + 0 ≤ 1 + 0 ∧ wokenSystem.now ≤ 0 + (1 + 1) * 12 := by
  obtain ⟨hheard, ⟨-, -, hwakes⟩, hpace, -⟩ := wake_schedule ⟨10, 0, 2⟩ Sync.idleConfig 0 Listener.fresh none
    (Task.init .bitcoin) wokenSystem (by simp) reached_wokenSystem
  exact ⟨hheard 2 (by decide) (by decide), hwakes, hpace⟩

/-! ## Backoff -/

/-- How many sessions in a row have failed to connect, after the first or after one that did. -/
def doublings : List Bool → ℕ
  | false :: c :: rest => doublings (c :: rest) + 1
  | _ => 0

theorem doublings_replicate (k : ℕ) : doublings (List.replicate (k + 1) false) = k := by
  induction k with
  | zero => rfl
  | succ k ih => rw [List.replicate_succ, List.replicate_succ, doublings, ← List.replicate_succ, ih]

theorem doublings_of_connected (rest : List Bool) (k : ℕ) : doublings (List.replicate k false ++ true :: rest) = k := by
  induction k with
  | zero => rfl
  | succ k ih =>
    rw [List.replicate_succ, List.cons_append]
    cases k with
    | zero => rfl
    | succ k =>
      rw [List.replicate_succ, List.cons_append] at ih ⊢
      rw [doublings, ih]

/-- The backoff, between the sleeps and in one. -/
def Paced (l : Listener) : Prop :=
  match l.session with
  | .asleep _ => l.ended ≠ [] ∧ l.backoff = min backoffMax (backoffStart * 2 ^ doublings l.ended)
  | _ => (l.ended = [] ∧ l.backoff = backoffStart) ∨
      l.ended ≠ [] ∧ l.backoff = min backoffMax (backoffStart * 2 ^ (doublings l.ended + 1))

theorem Listener.Reached.paced {l : Listener} (hl : l.Reached) : Paced l := by
  induction hl with
  | fresh => exact Or.inl ⟨rfl, rfl⟩
  | @step l l' now _ hstep ih =>
    unfold Paced at ih
    cases hstep with
    | connected hsession =>
      rw [hsession] at ih
      exact ih
    | refused hsession =>
      rw [hsession] at ih
      refine ⟨List.cons_ne_nil _ _, ?_⟩
      obtain ⟨hended, hbackoff⟩ | ⟨hended, hbackoff⟩ := ih
      · rw [Listener.endSession, hended, hbackoff]
        show backoffStart = min backoffMax (backoffStart * 2 ^ 0)
        decide
      · obtain ⟨c, rest, hended⟩ := List.exists_cons_of_ne_nil hended
        rw [hended] at hbackoff
        rw [Listener.endSession, hended, doublings, ← hbackoff]
        rfl
    | dropped hsession =>
      refine ⟨List.cons_ne_nil _ _, ?_⟩
      show backoffStart = min backoffMax (backoffStart * 2 ^ 0)
      decide
    | retried since hsession _ =>
      rw [hsession] at ih
      refine Or.inr ⟨ih.1, ?_⟩
      rw [Listener.retry, ih.2, pow_succ]
      simp only [backoffMax, backoffStart]
      omega

/-- How long a sleep lasts. -/
def Rested (p : Pace) (s : System) : Prop :=
  ∀ since, s.listener.session = .asleep since → s.now ≤ since + s.listener.backoff + p.lag

/-- **The listener comes back.**  It sleeps for `2 ^ k` seconds, and never for more than 30, however it is interleaved with
the loop: after its first `k + 1` sessions if none of them connected, and after `k` sessions that did not connect since
one that did.  Up to the runtime's lag it is not asleep for longer. -/
theorem listener_retries (p : Pace) (cfg : SyncConfig) (now : ℕ) (listener : Listener) (wake : Option ℕ) (task : Task)
    (s : System) (hlistener : listener.Reached) (hrested : Rested p (System.enter now listener wake task))
    (hs : Reached p cfg (System.enter now listener wake task) s) (k since : ℕ)
    (hended : s.listener.ended = List.replicate (k + 1) false ∨
      ∃ rest, s.listener.ended = List.replicate k false ++ true :: rest)
    (hsession : s.listener.session = .asleep since) :
    s.listener.backoff = min backoffMax (backoffStart * 2 ^ k) ∧
      s.now ≤ since + min backoffMax (backoffStart * 2 ^ k) + p.lag := by
  have hinv : s.listener.Reached ∧ Rested p s := by
    refine hs.induct (P := fun s => s.listener.Reached ∧ Rested p s) ⟨hlistener, hrested⟩ ?_
    rintro s s' ⟨hl, hr⟩ hstep
    cases hstep with
    | pass d _ hlate => exact ⟨hl, hlate⟩
    | heard _ => exact ⟨hl, hr⟩
    | polled _ _ _ => exact ⟨hl, hr⟩
    | woken _ _ _ _ => exact ⟨hl, hr⟩
    | ticked _ _ _ => exact ⟨hl, hr⟩
    | listened l hstep =>
      refine ⟨hl.step s.now hstep, ?_⟩
      cases hstep with
      | connected _ => exact fun since h => nomatch h
      | refused _ =>
        rintro since h
        cases h
        exact Nat.le_add_right_of_le (Nat.le_add_right _ _)
      | dropped _ =>
        rintro since h
        cases h
        exact Nat.le_add_right_of_le (Nat.le_add_right _ _)
      | retried _ _ _ => exact fun since h => nomatch h
  have hpaced := hinv.1.paced
  rw [Paced, hsession] at hpaced
  have hk : doublings s.listener.ended = k := by
    obtain h | ⟨rest, h⟩ := hended
    · rw [h, doublings_replicate]
    · rw [h, doublings_of_connected]
  have hbackoff : s.listener.backoff = min backoffMax (backoffStart * 2 ^ k) := hk ▸ hpaced.2
  exact ⟨hbackoff, hbackoff ▸ hinv.2 since hsession⟩

/-- Two sessions that could not connect, and half of the second sleep. -/
def refusedSystem : System :=
  { System.enter 0 Listener.fresh none (Task.init .bitcoin) with
    now := 2 * 10 ^ 9, listener := ⟨2 * 10 ^ 9, .asleep (10 ^ 9), [false, false]⟩ }

theorem reached_refusedSystem : Reached ⟨10 ^ 10, 0, 10 ^ 9⟩ Sync.idleConfig
    (System.enter 0 Listener.fresh none (Task.init .bitcoin)) refusedSystem := by
  have hrefused := (@Reached.enter ⟨10 ^ 10, 0, 10 ^ 9⟩ Sync.idleConfig
    (System.enter 0 Listener.fresh none (Task.init .bitcoin))).step (.listened _ (.refused rfl))
  have hretried := (hrefused.step (.pass (10 ^ 9) (by decide) (by rintro since h; cases h; decide))).step
    (.listened _ (.retried 0 rfl (by decide)))
  have hagain := hretried.step (.listened _ (.refused rfl))
  exact hagain.step (.pass (10 ^ 9) (by decide) (by rintro since h; cases h; decide))

theorem listener_retries_refused : refusedSystem.listener.backoff = min backoffMax (backoffStart * 2 ^ 1) ∧
    refusedSystem.now ≤ 10 ^ 9 + min backoffMax (backoffStart * 2 ^ 1) + 0 :=
  listener_retries ⟨10 ^ 10, 0, 10 ^ 9⟩ Sync.idleConfig 0 Listener.fresh none (Task.init .bitcoin) refusedSystem
    .fresh (fun _ h => nomatch h) reached_refusedSystem 1 (10 ^ 9) (Or.inl rfl) rfl

end Zmq
end Satya
