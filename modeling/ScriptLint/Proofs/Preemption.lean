import Mathlib
import ScriptLint.Proofs.Overlap
import ScriptLint.Proofs.Serving

/-!
# Requests and validations on several threads

The reader of requests and the validations it starts run on threads of their own. Each takes its
steps one at a time, and any other thread may go on in between: a validation wakes up, looks at its
ticket, takes a generation, publishes, and tells; a clear takes a ticket, publishes, and tells.

* `Preemption.step`: a step of one thread; a schedule is any list of threads.
* `Preemption.Task.Poised`: a validation is past its check, and nothing voids it any more.
* `clear_cancels_iff`: **of the validations that came before a clear, exactly those that are poised
  can still publish or tell when the clear is over.**
* `clear_overtaken`, `line_overtaken`: schedules in which that happens: a cleared buffer gets stale
  diagnostics, and what is told last is not what is published.
* `told_eq_published`: **what is told last is what is published, as long as nothing is published
  about a buffer while another thread has yet to tell.**
-/

namespace ScriptLint.Preemption

open Service (startValidation complete complete_generation complete_engine)
open Serving (about lastAbout lastAbout_append)

/-- How far a validation is. -/
inductive Phase
  | asleep
  | awake
  /-- Its ticket was the latest when it looked. -/
  | admitted
  | running (generation : ℕ)
  /-- Published, and not told yet. -/
  | unsent (ds : List Diagnostic)
  | done
deriving DecidableEq, Repr

/-- What is published and not told yet. -/
def Phase.unsent? : Phase → Option (List Diagnostic)
  | unsent ds => some ds
  | _ => none

structure Task where
  buffer : String
  text : String
  ticket : ℕ
  phase : Phase

/-- How far the reader is with a request. -/
inductive Reading
  | ready
  /-- A clear has its ticket. -/
  | superseded (buffer : String)
  /-- A clear has published, and not told yet. -/
  | cleared (buffer : String)
deriving DecidableEq, Repr

structure State where
  server : Server
  /-- The requests to come. -/
  todo : List Request
  reader : Reading := .ready
  /-- The validations in the order their texts came. -/
  tasks : List Task := []
  sent : List Response := []

inductive Thread
  | reader
  | task (index : ℕ)
deriving DecidableEq, Repr

namespace State

def tickets (σ : State) (b : String) : ℕ :=
  σ.server.tickets.get b

def generation (σ : State) (b : String) : ℕ :=
  (σ.server.service.buffers.get b).generation

def published (σ : State) (b : String) : List Diagnostic :=
  σ.server.service.buffers.published b

def setService (σ : State) (service : Service) : State :=
  { σ with server := { σ.server with service := service } }

end State

namespace Task

/-- What the end of a validation brings about. -/
def finish (σ : State) (t : Task) (generation : ℕ) : Answer × Service :=
  complete σ.server.service.engine.loader.outcome (.validate t.buffer t.text generation)
    σ.server.service

/-- How far a validation is after its next step. -/
def next (σ : State) (t : Task) : Phase :=
  match t.phase with
  | .asleep => .awake
  | .awake => if σ.server.isLatest t.buffer t.ticket then .admitted else .done
  | .admitted => .running (σ.server.service.buffers.start t.buffer).1
  | .running generation =>
    match (t.finish σ generation).1 with
    | .diagnostics ds => .unsent ds
    | _ => .done
  | .unsent _ => .done
  | .done => .done

/-- The service after its next step. -/
def service (σ : State) (t : Task) : Service :=
  match t.phase with
  | .admitted => (σ.server.service.startValidation t.buffer t.text).2
  | .running generation => (t.finish σ generation).2
  | _ => σ.server.service

/-- What it tells in its next step. -/
def tells (t : Task) : List Response :=
  match t.phase.unsent? with
  | some ds => [.publish t.buffer ds]
  | none => []

/-- Does its next step publish or tell something? -/
def Speaks (σ : State) (t : Task) : Prop :=
  (∃ ds, t.next σ = .unsent ds) ∨ t.tells ≠ []

/-- It is past its check, and nothing voids it any more. -/
def Poised (σ : State) (t : Task) : Prop :=
  match t.phase with
  | .admitted => True
  | .running generation => generation = σ.generation t.buffer
  | .unsent _ => True
  | _ => False

end Task

/-- The next step of the reader. -/
def readerStep (σ : State) : State :=
  match σ.reader with
  | .ready =>
    match σ.todo with
    | [] => σ
    | .validate b text :: rs =>
      let (ticket, server) := σ.server.supersede b
      { σ with server := server, todo := rs, tasks := σ.tasks ++ [⟨b, text, ticket, .asleep⟩] }
    | .clear b :: rs =>
      let (_, server) := σ.server.supersede b
      { σ with server := server, todo := rs, reader := .superseded b }
  | .superseded b =>
    { σ.setService (σ.server.service.begin (.clear b)).2 with reader := .cleared b }
  | .cleared b => { σ with reader := .ready, sent := σ.sent ++ [.publish b []] }

/-- The next step of the validation at `i`. -/
def taskStep (σ : State) (i : ℕ) (t : Task) : State :=
  { σ.setService (t.service σ) with
    tasks := σ.tasks.set i { t with phase := t.next σ }
    sent := σ.sent ++ t.tells }

/-- A step of a thread; one that is over, or that is not there yet, does nothing. -/
def step (σ : State) : Thread → State
  | .reader => readerStep σ
  | .task i =>
    match σ.tasks[i]? with
    | some t => taskStep σ i t
    | none => σ

/-- The steps of a schedule. -/
def run (σ : State) (schedule : List Thread) : State :=
  schedule.foldl step σ

/-- A server before its first request. -/
def start (loader : Loader) (settings : Settings) (requests : List Request) : State where
  server := Server.new (Service.new loader settings)
  todo := requests

variable {σ : State} {i : ℕ} {t : Task} {b : String}

/-! ## What a step leaves alone -/

theorem step_task (ht : σ.tasks[i]? = some t) : step σ (.task i) = taskStep σ i t := by
  rw [step, ht]

theorem tasks_own (ht : σ.tasks[i]? = some t) :
    (step σ (.task i)).tasks[i]? = some { t with phase := t.next σ } := by
  have hi : i < σ.tasks.length := (List.getElem?_eq_some_iff.1 ht).1
  rw [step_task ht]
  exact List.getElem?_set_self hi

/-- A validation takes its own steps only. -/
theorem tasks_other (ht : σ.tasks[i]? = some t) {a : Thread} (ha : a ≠ .task i) :
    (step σ a).tasks[i]? = some t := by
  have hi : i < σ.tasks.length := (List.getElem?_eq_some_iff.1 ht).1
  cases a with
  | reader =>
    simp only [step, readerStep]
    split
    · split
      · exact ht
      · show (σ.tasks ++ _)[i]? = _
        rw [List.getElem?_append_left hi, ht]
      · exact ht
    · exact ht
    · exact ht
  | task j =>
    have hji : j ≠ i := fun h => ha (by rw [h])
    rw [step]
    split
    · show (σ.tasks.set j _)[i]? = _
      rw [List.getElem?_set_ne hji, ht]
    · exact ht

theorem get_supersede_le (s : Server) (b b' : String) :
    s.tickets.get b' ≤ (s.supersede b).2.tickets.get b' := by
  rw [Server.supersede]
  dsimp only
  rw [Table.get_set]
  split
  · next h => rw [h]; exact Nat.le_succ _
  · exact Nat.le_refl _

theorem tickets_le (σ : State) (a : Thread) (b : String) : σ.tickets b ≤ (step σ a).tickets b := by
  cases a with
  | reader =>
    simp only [step, readerStep]
    split
    · split
      · exact Nat.le_refl _
      · exact get_supersede_le _ _ _
      · exact get_supersede_le _ _ _
    · exact Nat.le_refl _
    · exact Nat.le_refl _
  | task i =>
    rw [step]
    split <;> exact Nat.le_refl _

theorem generation_service (σ : State) (t : Task) (b : String) :
    σ.generation b ≤ ((t.service σ).buffers.get b).generation := by
  unfold Task.service
  split
  · simp only [startValidation, Buffers.start, State.generation]
    rw [Table.get_set]
    split
    · next h => rw [h]; exact Nat.le_succ _
    · exact Nat.le_refl _
  · rw [Task.finish, complete_generation]
    exact Nat.le_refl _
  · exact Nat.le_refl _

theorem generation_le (σ : State) (a : Thread) (b : String) :
    σ.generation b ≤ (step σ a).generation b := by
  cases a with
  | reader =>
    simp only [step, readerStep]
    split
    · split <;> exact Nat.le_refl _
    · next b' _ =>
      show σ.generation b ≤ ((σ.server.service.buffers.clear b').get b).generation
      rw [Buffers.clear, Table.get_set]
      split
      · next h => rw [h]; exact Nat.le_succ _
      · exact Nat.le_refl _
    · exact Nat.le_refl _
  | task i =>
    rw [step]
    split
    · exact generation_service σ _ b
    · exact Nat.le_refl _

/-! ## Validations that are cancelled -/

/-- Nothing will come of the validation. -/
def Task.Dead (σ : State) (t : Task) : Prop :=
  match t.phase with
  | .asleep => t.ticket < σ.tickets t.buffer
  | .awake => t.ticket < σ.tickets t.buffer
  | .admitted => False
  | .running generation => generation < σ.generation t.buffer
  | .unsent _ => False
  | .done => True

/-- A validation whose generation is not the latest is stale. -/
theorem next_of_stale {generation : ℕ} (hphase : t.phase = .running generation)
    (hne : generation ≠ σ.generation t.buffer) : t.next σ = .done := by
  have hstale : (t.finish σ generation).1 = .stale := by
    simp only [Task.finish, complete, Buffers.finish]
    rw [if_neg fun h => hne h.symm]
    rfl
  simp only [Task.next, hphase, hstale]

theorem Task.Dead.not_speaks (h : t.Dead σ) : ¬ t.Speaks σ := by
  unfold Task.Dead at h
  rintro (⟨ds, hnext⟩ | htells)
  · cases hphase : t.phase with
    | asleep => simp [Task.next, hphase] at hnext
    | awake =>
      simp only [Task.next, hphase] at hnext
      split at hnext <;> cases hnext
    | admitted => simp [Task.next, hphase] at hnext
    | running generation =>
      rw [hphase] at h
      rw [next_of_stale hphase (Nat.ne_of_lt h)] at hnext
      cases hnext
    | unsent ds => simp [Task.next, hphase] at hnext
    | done => simp [Task.next, hphase] at hnext
  · cases hphase : t.phase with
    | unsent ds => rw [hphase] at h; exact h
    | _ => exact htells (by simp only [Task.tells, hphase, Phase.unsent?])

theorem Task.Dead.mono (h : t.Dead σ) (a : Thread) : t.Dead (step σ a) := by
  unfold Task.Dead at h ⊢
  have htickets := tickets_le σ a t.buffer
  have hgeneration := generation_le σ a t.buffer
  cases hphase : t.phase <;> rw [hphase] at h <;> dsimp only at h ⊢ <;> omega

/-- Its own step takes a cancelled validation nowhere but to its end. -/
theorem Task.Dead.own (h : t.Dead σ) : Task.Dead σ { t with phase := t.next σ } := by
  unfold Task.Dead at h
  cases hphase : t.phase with
  | asleep =>
    rw [hphase] at h
    simpa [Task.Dead, Task.next, hphase] using h
  | awake =>
    rw [hphase] at h
    have hlate : σ.server.isLatest t.buffer t.ticket = false :=
      decide_eq_false (Nat.ne_of_gt h)
    simp [Task.Dead, Task.next, hphase, hlate]
  | admitted => rw [hphase] at h; exact h.elim
  | running generation =>
    rw [hphase] at h
    rw [next_of_stale hphase (Nat.ne_of_lt h)]
    trivial
  | unsent ds => rw [hphase] at h; exact h.elim
  | done => simp [Task.Dead, Task.next, hphase]

/-- **A cancelled validation stays so**, whatever the threads do. -/
theorem Task.Dead.run (ht : σ.tasks[i]? = some t) (h : t.Dead σ) (schedule : List Thread) :
    ∃ t', (run σ schedule).tasks[i]? = some t' ∧ t'.Dead (run σ schedule) := by
  induction schedule generalizing σ t with
  | nil => exact ⟨t, ht, h⟩
  | cons a schedule ih =>
    by_cases ha : a = .task i
    · subst ha
      exact ih (tasks_own ht) (h.own.mono (.task i))
    · exact ih (tasks_other ht ha) (h.mono a)

/-! ## Every schedule -/

/-- What holds of every state that is reached. -/
structure Sound (σ : State) : Prop where
  ticket : ∀ t ∈ σ.tasks, t.ticket ≤ σ.tickets t.buffer
  running : ∀ t ∈ σ.tasks, ∀ generation, t.phase = .running generation →
    generation ≤ σ.generation t.buffer
  /-- A clear has a ticket of its own while it is under way. -/
  clearing : ∀ b, σ.reader = .superseded b ∨ σ.reader = .cleared b →
    ∀ t ∈ σ.tasks, t.buffer = b → t.ticket < σ.tickets b

theorem sound_start (loader : Loader) (settings : Settings) (requests : List Request) :
    Sound (start loader settings requests) := by
  have hnone : ∀ t : Task, t ∉ (start loader settings requests).tasks := fun t => List.not_mem_nil
  exact ⟨fun t ht => absurd ht (hnone t), fun t ht => absurd ht (hnone t),
    fun _ _ t ht => absurd ht (hnone t)⟩

/-- A validation that takes its generation takes the latest. -/
theorem next_running {generation : ℕ} (h : t.next σ = .running generation) :
    ((t.service σ).buffers.get t.buffer).generation = generation := by
  cases hphase : t.phase with
  | asleep => simp [Task.next, hphase] at h
  | awake =>
    simp only [Task.next, hphase] at h
    split at h <;> cases h
  | admitted =>
    simp only [Task.next, hphase, Phase.running.injEq] at h
    simp only [Task.service, hphase, startValidation, Buffers.start, Table.get_set_self]
    exact h
  | running g =>
    simp only [Task.next, hphase] at h
    split at h <;> cases h
  | unsent ds => simp [Task.next, hphase] at h
  | done => simp [Task.next, hphase] at h

theorem Sound.task (hσ : Sound σ) (ht : σ.tasks[i]? = some t) : Sound (taskStep σ i t) := by
  have hmem : t ∈ σ.tasks := List.mem_of_getElem? ht
  have hcases : ∀ t' ∈ (taskStep σ i t).tasks,
      t' ∈ σ.tasks ∨ t' = { t with phase := t.next σ } :=
    fun t' ht' => List.mem_or_eq_of_mem_set ht'
  refine ⟨fun t' ht' => ?_, fun t' ht' generation hphase => ?_, fun b hb t' ht' hbuffer => ?_⟩
  · rcases hcases t' ht' with h | rfl
    · exact hσ.ticket t' h
    · exact hσ.ticket t hmem
  · rcases hcases t' ht' with h | rfl
    · exact Nat.le_trans (hσ.running t' h generation hphase) (generation_service σ t t'.buffer)
    · exact Nat.le_of_eq (next_running hphase).symm
  · rcases hcases t' ht' with h | rfl
    · exact hσ.clearing b hb t' h hbuffer
    · exact hσ.clearing b hb t hmem hbuffer

theorem tickets_supersede (s : Server) (b : String) :
    (s.supersede b).2.tickets.get b = s.tickets.get b + 1 := by
  simp [Server.supersede]

theorem Sound.reader (hσ : Sound σ) : Sound (readerStep σ) := by
  have htickets := tickets_le σ .reader
  have hgeneration := generation_le σ .reader
  rw [step] at htickets hgeneration
  -- the validations that were there keep what they have
  have hticket : ∀ t ∈ σ.tasks, t.ticket ≤ (readerStep σ).tickets t.buffer :=
    fun t ht => Nat.le_trans (hσ.ticket t ht) (htickets t.buffer)
  have hrunning : ∀ t ∈ σ.tasks, ∀ generation, t.phase = .running generation →
      generation ≤ (readerStep σ).generation t.buffer :=
    fun t ht g hg => Nat.le_trans (hσ.running t ht g hg) (hgeneration t.buffer)
  cases hreader : σ.reader with
  | ready =>
    cases htodo : σ.todo with
    | nil =>
      have hstep : readerStep σ = σ := by simp only [readerStep, hreader, htodo]
      rw [hstep]
      exact hσ
    | cons r rs =>
      cases r with
      | validate b text =>
        have hstep : readerStep σ = { σ with
            server := (σ.server.supersede b).2
            todo := rs
            tasks := σ.tasks ++ [⟨b, text, (σ.server.supersede b).1, .asleep⟩] } := by
          simp only [readerStep, hreader, htodo]
        rw [hstep] at hticket hrunning ⊢
        refine ⟨List.forall_mem_append.2 ⟨hticket, List.forall_mem_singleton.2 ?_⟩,
          List.forall_mem_append.2 ⟨hrunning, List.forall_mem_singleton.2 ?_⟩, fun b' hb' => ?_⟩
        · exact Nat.le_of_eq (tickets_supersede σ.server b).symm
        · intro generation hphase
          cases hphase
        · rw [hreader] at hb'
          rcases hb' with h | h <;> cases h
      | clear b =>
        have hstep : readerStep σ = { σ with
            server := (σ.server.supersede b).2, todo := rs, reader := .superseded b } := by
          simp only [readerStep, hreader, htodo]
        rw [hstep] at hticket hrunning ⊢
        refine ⟨hticket, hrunning, fun b' hb' t ht hbuffer => ?_⟩
        have hb : b = b' := by
          rcases hb' with h | h <;> cases h
          rfl
        subst hb hbuffer
        show t.ticket < (σ.server.supersede t.buffer).2.tickets.get t.buffer
        rw [tickets_supersede]
        exact Nat.lt_succ_of_le (hσ.ticket t ht)
  | superseded b =>
    have hstep : readerStep σ =
        { σ.setService (σ.server.service.begin (.clear b)).2 with reader := .cleared b } := by
      simp only [readerStep, hreader]
    rw [hstep] at hticket hrunning ⊢
    refine ⟨hticket, hrunning, fun b' hb' => hσ.clearing b' ?_⟩
    rcases hb' with h | h <;> cases h
    exact .inl hreader
  | cleared b =>
    have hstep : readerStep σ = { σ with
        reader := .ready, sent := σ.sent ++ [.publish b []] } := by
      simp only [readerStep, hreader]
    rw [hstep] at hticket hrunning ⊢
    refine ⟨hticket, hrunning, fun b' hb' => ?_⟩
    rcases hb' with h | h <;> cases h

theorem Sound.step (hσ : Sound σ) (a : Thread) : Sound (step σ a) := by
  cases a with
  | reader => exact hσ.reader
  | task i =>
    rw [Preemption.step]
    split
    · next t ht => exact hσ.task ht
    · exact hσ

/-- **Every schedule keeps to this.** -/
theorem sound_run (hσ : Sound σ) (schedule : List Thread) : Sound (run σ schedule) := by
  induction schedule generalizing σ with
  | nil => exact hσ
  | cons a schedule ih => exact ih (hσ.step a)

/-- Some schedule leads to the state. -/
def Reached (loader : Loader) (settings : Settings) (requests : List Request) (σ : State) : Prop :=
  ∃ schedule, σ = run (start loader settings requests) schedule

theorem Reached.sound {loader : Loader} {settings : Settings} {requests : List Request}
    (h : Reached loader settings requests σ) : Sound σ := by
  obtain ⟨schedule, rfl⟩ := h
  exact sound_run (sound_start loader settings requests) schedule

/-- A validation whose generation is the latest publishes. -/
theorem next_of_latest {generation : ℕ} (hphase : t.phase = .running generation)
    (heq : generation = σ.generation t.buffer) : ∃ ds, t.next σ = .unsent ds := by
  have hsame : (σ.server.service.buffers.get t.buffer).generation = generation := heq.symm
  have hanswer : ∃ ds, (t.finish σ generation).1 = .diagnostics ds := by
    simp only [Task.finish, complete, Buffers.finish]
    rw [if_pos hsame]
    exact ⟨_, rfl⟩
  obtain ⟨ds, hds⟩ := hanswer
  exact ⟨ds, by simp only [Task.next, hphase, hds]⟩

/-- A validation that is poised can publish or tell without any other thread's help. -/
theorem Task.Poised.speaks (ht : σ.tasks[i]? = some t) (h : t.Poised σ) :
    ∃ more t', (run σ more).tasks[i]? = some t' ∧ t'.Speaks (run σ more) := by
  unfold Task.Poised at h
  cases hphase : t.phase with
  | asleep => rw [hphase] at h; exact h.elim
  | awake => rw [hphase] at h; exact h.elim
  | admitted =>
    -- it takes its generation, which is then the latest
    refine ⟨[.task i], { t with phase := t.next σ }, tasks_own ht, .inl ?_⟩
    have hnext : t.next σ = .running (σ.server.service.buffers.start t.buffer).1 := by
      simp only [Task.next, hphase]
    refine next_of_latest hnext ?_
    have hlatest := next_running hnext
    rw [run, List.foldl_cons, List.foldl_nil, step_task ht]
    exact hlatest.symm
  | running generation =>
    rw [hphase] at h
    exact ⟨[], t, ht, .inl (next_of_latest hphase h)⟩
  | unsent ds => exact ⟨[], t, ht, .inr (by simp [Task.tells, hphase, Phase.unsent?])⟩
  | done => rw [hphase] at h; exact h.elim

/-- A validation whose ticket is not the latest is poised or cancelled. -/
theorem Sound.dead (hσ : Sound σ) (hmem : t ∈ σ.tasks) (hticket : t.ticket < σ.tickets t.buffer)
    (h : ¬ t.Poised σ) : t.Dead σ := by
  have hrunning := hσ.running t hmem
  unfold Task.Poised at h
  unfold Task.Dead
  cases hphase : t.phase with
  | asleep => exact hticket
  | awake => exact hticket
  | admitted => rw [hphase] at h; exact h trivial
  | running generation =>
    rw [hphase] at h
    exact Nat.lt_of_le_of_ne (hrunning generation hphase) h
  | unsent ds => rw [hphase] at h; exact h trivial
  | done => trivial

/-- **What a clear does not cancel.** When a clear of a buffer is over, a validation of a text of
that buffer that came before can still publish or tell exactly if it is poised: past its check with
its generation not taken or taken behind the clear's, or published and not told. -/
theorem clear_cancels_iff (loader : Loader) (settings : Settings) (requests : List Request)
    (hσ : Reached loader settings requests σ) (hclear : σ.reader = .cleared b)
    (ht : (step σ .reader).tasks[i]? = some t) (hbuffer : t.buffer = b) :
    (∃ more t', (run (step σ .reader) more).tasks[i]? = some t' ∧
        t'.Speaks (run (step σ .reader) more)) ↔
      t.Poised (step σ .reader) := by
  have hsound := hσ.sound
  -- telling changes neither tickets nor validations
  have hstep : step σ .reader = { σ with reader := .ready, sent := σ.sent ++ [.publish b []] } := by
    simp only [step, readerStep, hclear]
  have hmem : t ∈ (step σ .reader).tasks := List.mem_of_getElem? ht
  have hticket : t.ticket < (step σ .reader).tickets t.buffer := by
    rw [hstep] at hmem ⊢
    rw [hbuffer]
    exact hsound.clearing b (.inr hclear) t hmem hbuffer
  refine ⟨fun hspeaks => ?_, fun hpoised => hpoised.speaks ht⟩
  by_contra hpoised
  obtain ⟨more, t', ht', hspeaks⟩ := hspeaks
  have hdead := (hsound.step .reader).dead hmem hticket hpoised
  obtain ⟨t'', ht'', hdead⟩ := Task.Dead.run ht hdead more
  rw [ht'] at ht''
  cases ht''
  exact hdead.not_speaks hspeaks

/-- A validation passes its check, the clear is over, and then it publishes and tells. -/
theorem clear_overtaken :
    let σ := run (start Loader.builtin {} [.validate "a" "x", .clear "a"])
      [.reader, .task 0, .task 0, .reader, .reader, .reader, .task 0, .task 0, .task 0]
    σ.sent = [.publish "a" [],
        .publish "a" [⟨1, 1, "Undefined variable 'x'", .warning⟩]] ∧
      σ.published "a" = [⟨1, 1, "Undefined variable 'x'", .warning⟩] := by
  cbv

/-- A validation publishes, the clear is over, and then it tells. -/
theorem line_overtaken :
    let σ := run (start Loader.builtin {} [.validate "a" "x", .clear "a"])
      [.reader, .task 0, .task 0, .task 0, .task 0, .reader, .reader, .reader, .task 0]
    σ.sent = [.publish "a" [],
        .publish "a" [⟨1, 1, "Undefined variable 'x'", .warning⟩]] ∧
      σ.published "a" = [] := by
  cbv

/-! ## What is told and what is published -/

/-- What a thread has published about a buffer and not told yet. -/
def holds (σ : State) (b : String) : Thread → Option (List Diagnostic)
  | .reader => if σ.reader = .cleared b then some [] else none
  | .task i => σ.tasks[i]?.bind fun t => if t.buffer = b then t.phase.unsent? else none

/-- Does the next step of a thread publish something about the buffer? -/
def Publishes (σ : State) (b : String) : Thread → Prop
  | .reader => σ.reader = .superseded b
  | .task i => ∃ t ds, σ.tasks[i]? = some t ∧ t.buffer = b ∧ t.next σ = .unsent ds

/-- Along the schedule, a thread publishes about the buffer only while no thread has yet to tell. -/
def Orderly (b : String) (σ : State) : List Thread → Prop
  | [] => True
  | a :: as => (Publishes σ b a → ∀ a', holds σ b a' = none) ∧ Orderly b (step σ a) as

/-- What is published about the buffer has been told last, or one thread has yet to tell it. -/
def Agrees (b : String) (σ : State) : Prop :=
  ((∀ a, holds σ b a = none) ∧ σ.published b = (lastAbout b σ.sent).getD []) ∨
    ∃ a, holds σ b a = some (σ.published b) ∧ ∀ a', a' ≠ a → holds σ b a' = none

/-- A step of a thread, as far as one buffer is concerned: it publishes, it tells what it has
published, or it does neither. -/
inductive Move (b : String) (σ σ' : State) (a : Thread) : Prop
  | publish (h : Publishes σ b a) (hholds : holds σ' b a = some (σ'.published b))
      (hsent : lastAbout b σ'.sent = lastAbout b σ.sent)
  | tell {ds : List Diagnostic} (h : holds σ b a = some ds) (hholds : holds σ' b a = none)
      (hpublished : σ'.published b = σ.published b) (hsent : lastAbout b σ'.sent = some ds)
  | idle (h : holds σ b a = none) (hholds : holds σ' b a = none)
      (hpublished : σ'.published b = σ.published b)
      (hsent : lastAbout b σ'.sent = lastAbout b σ.sent)

/-- A validation that has just come sleeps. -/
theorem tasks_new {j : ℕ} (hj : σ.tasks[j]? = none) (a : Thread)
    (ht : (step σ a).tasks[j]? = some t) : t.phase = .asleep := by
  have hle : σ.tasks.length ≤ j := List.getElem?_eq_none_iff.1 hj
  cases a with
  | reader =>
    simp only [step, readerStep] at ht
    split at ht
    · split at ht
      · rw [hj] at ht; cases ht
      · dsimp only at ht
        rw [List.getElem?_append_right hle] at ht
        rw [List.mem_singleton.1 (List.mem_of_getElem? ht)]
      · dsimp only at ht
        rw [hj] at ht; cases ht
    · dsimp only [State.setService] at ht
      rw [hj] at ht; cases ht
    · dsimp only at ht
      rw [hj] at ht; cases ht
  | task i =>
    have hnone : (step σ (.task i)).tasks[j]? = none := by
      rw [List.getElem?_eq_none_iff, step]
      split
      · simpa [taskStep] using hle
      · exact hle
    rw [hnone] at ht
    cases ht

theorem holds_other (σ : State) (b : String) {a a' : Thread} (h : a' ≠ a) :
    holds (step σ a) b a' = holds σ b a' := by
  cases a' with
  | reader =>
    cases a with
    | reader => exact absurd rfl h
    | task i =>
      rw [step]
      split <;> rfl
  | task j =>
    cases ht : σ.tasks[j]? with
    | some t => simp only [holds, ht, tasks_other ht (Ne.symm h)]
    | none =>
      cases ht' : (step σ a).tasks[j]? with
      | none => simp only [holds, ht, ht']
      | some t => simp [holds, ht, ht', tasks_new ht a ht', Phase.unsent?]

theorem lastAbout_tell (b b' : String) (sent : List Response) (ds : List Diagnostic) :
    lastAbout b (sent ++ [.publish b' ds]) = if b' = b then some ds else lastAbout b sent := by
  rw [lastAbout_append]
  by_cases hb : b' = b <;> simp [lastAbout, about, hb]

/-- What a step of a validation does to what is published. -/
theorem published_service (σ : State) (t : Task) (b : String) :
    (t.buffer = b ∧ t.next σ = .unsent ((t.service σ).buffers.published b)) ∨
      ((t.next σ).unsent? = none ∨ t.buffer ≠ b) ∧
        (t.service σ).buffers.published b = σ.published b := by
  cases hphase : t.phase with
  | admitted =>
    refine .inr ⟨.inl (by simp only [Task.next, hphase, Phase.unsent?]), ?_⟩
    simp only [Task.service, hphase, startValidation, Buffers.start, Buffers.published,
      State.published]
    rw [Table.get_set]
    split
    · next h => rw [h]
    · rfl
  | running generation =>
    by_cases heq : generation = σ.generation t.buffer
    · have hsame : (σ.server.service.buffers.get t.buffer).generation = generation := heq.symm
      by_cases hb : t.buffer = b
      · refine .inl ⟨hb, ?_⟩
        subst hb
        simp only [Task.next, Task.service, hphase, Task.finish, complete, Buffers.finish, hsame,
          if_true, Option.elim_some, Buffers.published, Table.get_set_self]
      · refine .inr ⟨.inr hb, ?_⟩
        simp only [Task.service, hphase, Task.finish, complete, Buffers.finish, hsame, if_true,
          Buffers.published, State.published]
        rw [Table.get_set, if_neg (Ne.symm hb)]
    · have hother : ¬ (σ.server.service.buffers.get t.buffer).generation = generation :=
        fun h => heq h.symm
      refine .inr ⟨.inl (by rw [next_of_stale hphase heq]; rfl), ?_⟩
      simp only [Task.service, hphase, Task.finish, complete, Buffers.finish, if_neg hother]
      rfl
  | awake =>
    refine .inr ⟨.inl ?_, by simp only [Task.service, hphase, State.published]⟩
    simp only [Task.next, hphase]
    split <;> rfl
  | _ =>
    exact .inr ⟨.inl (by simp only [Task.next, hphase, Phase.unsent?]),
      by simp only [Task.service, hphase, State.published]⟩

theorem move_task (σ : State) (b : String) (i : ℕ) : Move b σ (step σ (.task i)) (.task i) := by
  cases ht : σ.tasks[i]? with
  | none =>
    have hstep : step σ (.task i) = σ := by rw [step, ht]
    have hholds : holds σ b (.task i) = none := by simp only [holds, ht, Option.bind_none]
    rw [hstep]
    exact .idle hholds hholds rfl rfl
  | some t =>
    have hbefore : holds σ b (.task i) = if t.buffer = b then t.phase.unsent? else none := by
      simp only [holds, ht, Option.bind_some]
    have hafter : holds (step σ (.task i)) b (.task i) =
        if t.buffer = b then (t.next σ).unsent? else none := by
      simp only [holds, tasks_own ht, Option.bind_some]
    have hpublished : (step σ (.task i)).published b = (t.service σ).buffers.published b := by
      rw [step_task ht]
      rfl
    have hsent : (step σ (.task i)).sent = σ.sent ++ t.tells := by
      rw [step_task ht]
      rfl
    cases hunsent : t.phase.unsent? with
    | some ds =>
      -- it tells, and is done
      have hnext : (t.next σ).unsent? = none ∧ (t.service σ) = σ.server.service := by
        unfold Phase.unsent? at hunsent
        split at hunsent
        · next hphase => simp only [Task.next, Task.service, hphase, Phase.unsent?, and_self]
        · cases hunsent
      have htell : lastAbout b (step σ (.task i)).sent =
          if t.buffer = b then some ds else lastAbout b σ.sent := by
        rw [hsent, Task.tells, hunsent, lastAbout_tell]
      rw [hunsent] at hbefore
      rw [hnext.1, ite_self] at hafter
      rw [hnext.2] at hpublished
      by_cases hb : t.buffer = b
      · exact .tell (by rw [hbefore, if_pos hb]) hafter hpublished (by rw [htell, if_pos hb])
      · exact .idle (by rw [hbefore, if_neg hb]) hafter hpublished (by rw [htell, if_neg hb])
    | none =>
      have hquiet : lastAbout b (step σ (.task i)).sent = lastAbout b σ.sent := by
        rw [hsent, Task.tells, hunsent, List.append_nil]
      rw [hunsent, ite_self] at hbefore
      rcases published_service σ t b with ⟨hb, hnext⟩ | ⟨hnone, hsame⟩
      · refine .publish ⟨t, _, ht, hb, hnext⟩ ?_ hquiet
        rw [hafter, hnext, if_pos hb, hpublished]
        rfl
      · refine .idle hbefore ?_ (by rw [hpublished, hsame]) hquiet
        rw [hafter]
        rcases hnone with h | h
        · rw [h, ite_self]
        · rw [if_neg h]

theorem move_reader (σ : State) (b : String) : Move b σ (step σ .reader) .reader := by
  have hholds : ∀ σ : State, (∀ b', σ.reader ≠ .cleared b') → holds σ b .reader = none :=
    fun σ h => if_neg (h b)
  cases hreader : σ.reader with
  | ready =>
    have hbefore : holds σ b .reader = none := hholds σ (by simp [hreader])
    cases htodo : σ.todo with
    | nil =>
      have hstep : step σ .reader = σ := by simp only [step, readerStep, hreader, htodo]
      rw [hstep]
      exact .idle hbefore hbefore rfl rfl
    | cons r rs =>
      refine .idle hbefore (hholds _ ?_) ?_ ?_
      all_goals cases r <;> simp [step, readerStep, hreader, htodo, Server.supersede,
        State.published]
  | superseded b' =>
    have hstep : step σ .reader =
        { σ.setService (σ.server.service.begin (.clear b')).2 with reader := .cleared b' } := by
      simp only [step, readerStep, hreader]
    have hpublished : (step σ .reader).published b = if b = b' then [] else σ.published b := by
      rw [hstep]
      show ((σ.server.service.buffers.clear b').get b).published = _
      rw [Buffers.clear, Table.get_set]
      split <;> rfl
    by_cases hb : b' = b
    · subst hb
      rw [if_pos rfl] at hpublished
      refine .publish hreader ?_ (by rw [hstep]; rfl)
      rw [hpublished, hstep]
      exact if_pos rfl
    · refine .idle (hholds σ (by simp [hreader])) ?_ (by rw [hpublished, if_neg (Ne.symm hb)])
        (by rw [hstep]; rfl)
      rw [hstep]
      exact if_neg fun h => hb (Reading.cleared.inj h)
  | cleared b' =>
    have hstep : step σ .reader =
        { σ with reader := .ready, sent := σ.sent ++ [.publish b' []] } := by
      simp only [step, readerStep, hreader]
    have hafter : holds (step σ .reader) b .reader = none := hholds _ (by simp [hstep])
    have htell : lastAbout b (step σ .reader).sent =
        if b' = b then some [] else lastAbout b σ.sent := by
      rw [hstep, lastAbout_tell]
    by_cases hb : b' = b
    · subst hb
      exact .tell (if_pos hreader) hafter (by rw [hstep]; rfl) (by rw [htell, if_pos rfl])
    · refine .idle (if_neg ?_) hafter (by rw [hstep]; rfl) (by rw [htell, if_neg hb])
      rw [hreader]
      exact fun h => hb (Reading.cleared.inj h)

theorem move (σ : State) (b : String) (a : Thread) : Move b σ (step σ a) a := by
  cases a with
  | reader => exact move_reader σ b
  | task i => exact move_task σ b i

theorem Agrees.step (h : Agrees b σ) {a : Thread}
    (horderly : Publishes σ b a → ∀ a', holds σ b a' = none) : Agrees b (step σ a) := by
  have hother : ∀ a', a' ≠ a → holds (Preemption.step σ a) b a' = holds σ b a' :=
    fun a' ha' => holds_other σ b ha'
  rcases move σ b a with ⟨hpublishes, hholds, -⟩ | ⟨htold, hholds, hpublished, hsent⟩ |
    ⟨hnone, hholds, hpublished, hsent⟩
  · exact .inr ⟨a, hholds, fun a' ha' => by rw [hother a' ha', horderly hpublishes a']⟩
  · -- the thread that tells is the one that had to
    rcases h with ⟨hall, -⟩ | ⟨c, hc, hunique⟩
    · rw [hall a] at htold
      cases htold
    · have hac : a = c := by
        by_contra hne
        rw [hunique a hne] at htold
        cases htold
      subst hac
      refine .inl ⟨fun a' => ?_, ?_⟩
      · by_cases ha' : a' = a
        · rw [ha', hholds]
        · rw [hother a' ha', hunique a' ha']
      · rw [hpublished, hsent]
        exact Option.some.inj (hc.symm.trans htold)
  · rcases h with ⟨hall, hlast⟩ | ⟨c, hc, hunique⟩
    · refine .inl ⟨fun a' => ?_, by rw [hpublished, hsent, hlast]⟩
      by_cases ha' : a' = a
      · rw [ha', hholds]
      · rw [hother a' ha', hall a']
    · have hca : c ≠ a := by
        rintro rfl
        rw [hnone] at hc
        cases hc
      refine .inr ⟨c, by rw [hother c hca, hpublished, hc], fun a' ha' => ?_⟩
      by_cases h : a' = a
      · rw [h, hholds]
      · rw [hother a' h, hunique a' ha']

theorem agrees_run {schedule : List Thread} (h : Agrees b σ) (horderly : Orderly b σ schedule) :
    Agrees b (run σ schedule) := by
  induction schedule generalizing σ with
  | nil => exact h
  | cons a schedule ih => exact ih (h.step horderly.1) horderly.2

/-- **What is told last is what is published**, as long as nothing is published about the buffer
while a thread has yet to tell: whenever every thread has told. -/
theorem told_eq_published (loader : Loader) (settings : Settings) (requests : List Request)
    (schedule : List Thread) (horderly : Orderly b (start loader settings requests) schedule)
    (htold : ∀ a, holds (run (start loader settings requests) schedule) b a = none) :
    (run (start loader settings requests) schedule).published b =
      (lastAbout b (run (start loader settings requests) schedule).sent).getD [] := by
  have hstart : Agrees b (start loader settings requests) :=
    .inl ⟨fun a => by cases a <;> rfl, rfl⟩
  rcases agrees_run hstart horderly with ⟨-, h⟩ | ⟨a, ha, -⟩
  · exact h
  · rw [htold a] at ha
    cases ha

end ScriptLint.Preemption
