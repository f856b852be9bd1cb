import Mathlib
import ScriptLint.Proofs.Overlap

/-!
# One load for every operation

Operations on the service overlap in any order. Each takes its steps one at a time: it begins, asks
for the engine, learns what the load came to, and ends. Other operations and the load itself go on
in between, and what the loader would do if it were called may change at any moment.

* `SingleFlight.World.step`: a step of an operation or of the load; a run is any list of steps.
* `Leads`, `step_leads`: what a step can do to the load. Once it has begun it is not undone, and
  once it is over it stays as it is.
* `sound_run` (every run): the loader was called if some operation has asked, and what operations
  have seen is what the load came to.
* `ends`: no operation is held up for good.
* `together_run`: operations that the service runs side by side, or one alone, are such a run.
* `load_once`: **however operations overlap, the loader is called once for all of them, each sees
  the same outcome, and after a failure there is nothing to publish.**
-/

namespace ScriptLint.SingleFlight

open Service (startValidation complete complete_engine diagnosticsWith needEngine resume conclude
  beginAll concludeAll)

/-- What a load comes to. -/
abbrev Outcome := Except LoadError Engine

/-! ## Runs -/

/-- How far an operation is. -/
inductive Stage
  /-- Begun, a validation with its number; the engine was not asked for yet. -/
  | begun (held : Held)
  | waiting (held : Held)
  /-- It has learned what the load came to. -/
  | served (held : Held) (outcome : Outcome)
  /-- Answered; `seen` is what it has learned of the load. -/
  | done (seen : Option Outcome) (answer : Answer)

namespace Stage

/-- What the operation has learned of the load. -/
def seen? : Stage → Option Outcome
  | served _ outcome => some outcome
  | done seen _ => seen
  | _ => none

/-- Has the operation asked for the engine? -/
def asked : Stage → Bool
  | begun _ => false
  | waiting _ => true
  | served _ _ => true
  | done seen _ => seen.isSome

def isBegun : Stage → Bool
  | begun _ => true
  | _ => false

def answer? : Stage → Option Answer
  | done _ answer => some answer
  | _ => none

/-- The next step of an operation, and the service behind it. -/
def next (s : Service) : Stage → Stage × Service
  | begun held => (waiting held, { s with engine := s.engine.request })
  | waiting held =>
    match s.engine.outcome? with
    | some outcome => (served held outcome, s)
    | none => (waiting held, s)
  | served held outcome =>
    let (answer, s) := complete outcome held s
    (done (some outcome) answer, s)
  | done seen answer => (done seen answer, s)

end Stage

structure Task where
  op : Operation
  stage : Stage

def needsEngine : Operation → Bool
  | .produce _ => true
  | .validate _ _ => true
  | .load => true
  | _ => false

/-- The first step of an operation that needs the engine, with what is left of it. -/
def start? (op : Operation) (s : Service) : Option (Held × Service) :=
  match op with
  | .produce text => some (.produce text, s)
  | .validate buffer text => some (s.startValidation buffer text)
  | .load => some (.load, s)
  | _ => none

/-- A service and the operations asked of it so far. -/
structure World where
  service : Service
  tasks : List Task

inductive Move
  | call (op : Operation)
  /-- The operation called at this index takes its next step. -/
  | go (index : ℕ)
  /-- The load goes on to its next pause, or to its end. -/
  | tick
  /-- A call of the loader would go like this from now on. -/
  | change (loader : Loader)

namespace World

def state (w : World) : LoadState :=
  w.service.engine.state

def published (w : World) (buffer : String) : List Diagnostic :=
  w.service.buffers.published buffer

def call (w : World) (op : Operation) : World :=
  match start? op w.service with
  | some (held, s) => ⟨s, w.tasks ++ [⟨op, .begun held⟩]⟩
  | none =>
    match w.service.begin op with
    | (.done answer, s) => ⟨s, w.tasks ++ [⟨op, .done none answer⟩]⟩
    | (.held held, s) => ⟨s, w.tasks ++ [⟨op, .waiting held⟩]⟩

def go (w : World) (index : ℕ) : World :=
  match w.tasks[index]? with
  | some t =>
    let (stage, s) := t.stage.next w.service
    ⟨s, w.tasks.set index { t with stage := stage }⟩
  | none => w

def step (w : World) : Move → World
  | .call op => w.call op
  | .go index => w.go index
  | .tick => { w with service := { w.service with engine := w.service.engine.tick } }
  | .change loader =>
    { w with service := { w.service with engine := { w.service.engine with loader := loader } } }

def run (w : World) (ms : List Move) : World :=
  ms.foldl step w

end World

/-- The world after the first `n` moves of a run. -/
def worldAt (loader : Loader) (settings : Settings) (ms : List Move) (n : ℕ) : World :=
  World.run ⟨Service.new loader settings, []⟩ (ms.take n)

variable {w : World} {s : Service} {op : Operation} {held : Held} {outcome : Outcome}

/-- What is left of an operation that needs the engine when it has begun. -/
inductive Rest : Operation → Held → Prop
  | produce (text : String) : Rest (.produce text) (.produce text)
  | validate (buffer text : String) (generation : ℕ) :
      Rest (.validate buffer text) (.validate buffer text generation)
  | load : Rest .load .load

theorem Rest.needsEngine (h : Rest op held) : needsEngine op = true := by
  cases h with
  | produce text => rfl
  | validate buffer text generation => rfl
  | load => rfl

theorem start?_isSome (op : Operation) (s : Service) : (start? op s).isSome = needsEngine op := by
  cases op <;> rfl

/-- The first step of an operation: a validation takes its number, others do nothing yet. From there
the operation goes on by asking for the engine. -/
theorem start?_spec {s' : Service} (h : start? op s = some (held, s')) :
    Rest op held ∧ s.begin op = needEngine held s' ∧ s'.engine = s.engine ∧
      s'.settings = s.settings ∧ ∀ b, s'.buffers.published b = s.buffers.published b := by
  cases op with
  | produce text => cases h; exact ⟨.produce text, rfl, rfl, rfl, fun _ => rfl⟩
  | load => cases h; exact ⟨.load, rfl, rfl, rfl, fun _ => rfl⟩
  | validate buffer text =>
    simp only [start?, Option.some.injEq] at h
    have hbegin := Service.begin_validate buffer text s
    rw [h] at hbegin
    simp only [startValidation, Prod.mk.injEq] at h
    obtain ⟨rfl, rfl⟩ := h
    refine ⟨.validate buffer text _, hbegin, rfl, rfl, fun b => ?_⟩
    simp only [Buffers.start, Buffers.published]
    rw [Table.get_set]
    split
    · next hb => rw [hb]
    · rfl
  | clear buffer => cases h
  | published buffer => cases h
  | markers buffer => cases h
  | settings => cases h

/-- An operation that does not need the engine is answered at once. -/
theorem begin_of_none (h : start? op s = none) :
    ∃ answer s', s.begin op = (.done answer, s') ∧ s'.engine = s.engine ∧
      s'.settings = s.settings ∧
      ∀ b, s'.buffers.published b = s.buffers.published b ∨ s'.buffers.published b = [] := by
  cases op with
  | produce text => cases h
  | validate buffer text => cases h
  | load => cases h
  | clear buffer =>
    refine ⟨_, _, rfl, rfl, rfl, fun b => ?_⟩
    simp only [Buffers.clear, Buffers.published]
    rw [Table.get_set]
    split
    · exact .inr rfl
    · exact .inl rfl
  | published buffer => exact ⟨_, _, rfl, rfl, rfl, fun _ => .inl rfl⟩
  | markers buffer => exact ⟨_, _, rfl, rfl, rfl, fun _ => .inl rfl⟩
  | settings => exact ⟨_, _, rfl, rfl, rfl, fun _ => .inl rfl⟩

/-- A call adds an operation: begun if it needs the engine, else answered. The load stays as it is,
and at most a clear changes what is published. -/
theorem call_cases (w : World) (op : Operation) :
    ∃ s' stage, w.call op = ⟨s', w.tasks ++ [⟨op, stage⟩]⟩ ∧ s'.engine = w.service.engine ∧
      s'.settings = w.service.settings ∧
      (∀ b, s'.buffers.published b = w.published b ∨ s'.buffers.published b = []) ∧
      ((∃ held, start? op w.service = some (held, s') ∧ stage = .begun held) ∨
        ∃ answer, start? op w.service = none ∧ w.service.begin op = (.done answer, s') ∧
          stage = .done none answer) := by
  unfold World.call
  cases h : start? op w.service with
  | some r =>
    obtain ⟨held, s'⟩ := r
    obtain ⟨-, -, hengine, hsettings, hpublished⟩ := start?_spec h
    exact ⟨s', _, rfl, hengine, hsettings, fun b => .inl (hpublished b), .inl ⟨held, rfl, rfl⟩⟩
  | none =>
    obtain ⟨answer, s', hbegin, hengine, hsettings, hpublished⟩ := begin_of_none h
    exact ⟨s', _, by rw [hbegin], hengine, hsettings, hpublished,
      .inr ⟨answer, rfl, hbegin, rfl⟩⟩

/-! ## The load -/

/-- What a step can do to the load: once it has begun it is not undone, and what it came to
stays. -/
structure Leads (a b : LoadState) : Prop where
  begun : a ≠ .idle → b ≠ .idle
  resolved : ∀ outcome, a = .resolved outcome → b = .resolved outcome

theorem Leads.refl (a : LoadState) : Leads a a :=
  ⟨id, fun _ => id⟩

theorem Leads.trans {a b c : LoadState} (h : Leads a b) (h' : Leads b c) : Leads a c :=
  ⟨fun ha => h'.begun (h.begun ha), fun o ha => h'.resolved o (h.resolved o ha)⟩

/-- The loader was called once if the load has begun, and not at all before. -/
def Once (cell : EngineCell) : Prop :=
  match cell.state with
  | .idle => cell.loads = 0
  | .loading n => cell.loads = 1 ∧ 0 < n
  | .resolved _ => cell.loads = 1

theorem after_ne_idle (loader : Loader) (n : ℕ) : EngineCell.after loader n ≠ .idle := by
  cases n <;> simp [EngineCell.after]

theorem once_after (cell : EngineCell) (n : ℕ) (h : cell.loads = 1) :
    Once { cell with state := EngineCell.after cell.loader n } := by
  cases n with
  | zero => exact h
  | succ n => exact ⟨h, Nat.succ_pos n⟩

theorem leads_request (cell : EngineCell) : Leads cell.state cell.request.state := by
  unfold EngineCell.request
  split
  · next hidle =>
    rw [hidle]
    exact ⟨fun h => absurd rfl h, fun _ h => by cases h⟩
  · exact .refl _

theorem request_ne_idle (cell : EngineCell) : cell.request.state ≠ .idle := by
  unfold EngineCell.request
  split
  · exact after_ne_idle _ _
  · next h => exact h

theorem Once.request {cell : EngineCell} (h : Once cell) : Once cell.request := by
  unfold EngineCell.request
  split
  · next hidle =>
    have hloads : cell.loads = 0 := by simpa [Once, hidle] using h
    exact once_after { cell with loads := cell.loads + 1 } _ (by rw [hloads])
  · exact h

theorem leads_tick (cell : EngineCell) : Leads cell.state cell.tick.state := by
  unfold EngineCell.tick
  split
  · next n hloading =>
    rw [hloading]
    exact ⟨fun _ => after_ne_idle _ _, fun _ h => by cases h⟩
  · exact .refl _

theorem Once.tick {cell : EngineCell} (h : Once cell) : Once cell.tick := by
  unfold EngineCell.tick
  split
  · next n hloading =>
    have hloads : cell.loads = 1 := by
      rw [Once, hloading] at h
      exact h.1
    exact once_after cell _ hloads
  · exact h

theorem Once.loads_eq {cell : EngineCell} (h : Once cell) :
    cell.loads ≤ 1 ∧ (cell.loads = 1 ↔ cell.state ≠ .idle) := by
  unfold Once at h
  split at h
  · next hidle => simp [h, hidle]
  · next hloading => simp [h.1, hloading]
  · next hresolved => simp [h, hresolved]

theorem outcome?_eq {cell : EngineCell} : cell.outcome? = some outcome ↔
    cell.state = .resolved outcome := by
  unfold EngineCell.outcome?
  cases cell.state <;> simp

/-- The next step of an operation either asks for the engine, or leaves the load alone. -/
theorem next_engine (s : Service) (stage : Stage) :
    (stage.next s).2.settings = s.settings ∧
      ((stage.next s).2.engine = s.engine ∨ ∃ held, stage = .begun held ∧
        (stage.next s).2.engine = s.engine.request) := by
  cases stage with
  | begun held => exact ⟨rfl, .inr ⟨held, rfl, rfl⟩⟩
  | waiting held =>
    simp only [Stage.next]
    split <;> exact ⟨rfl, .inl rfl⟩
  | served held outcome =>
    obtain ⟨hengine, hsettings⟩ := complete_engine outcome held s
    exact ⟨hsettings, .inl hengine⟩
  | done seen answer => exact ⟨rfl, .inl rfl⟩

theorem leads_next (s : Service) (stage : Stage) :
    Leads s.engine.state (stage.next s).2.engine.state := by
  obtain ⟨-, h | ⟨held, -, h⟩⟩ := next_engine s stage
  · rw [h]; exact .refl _
  · rw [h]; exact leads_request _

theorem go_eq {index : ℕ} {t : Task} (h : w.tasks[index]? = some t) :
    w.go index = ⟨(t.stage.next w.service).2,
      w.tasks.set index { t with stage := (t.stage.next w.service).1 }⟩ := by
  unfold World.go
  rw [h]

theorem go_of_none {index : ℕ} (h : w.tasks[index]? = none) : w.go index = w := by
  unfold World.go
  rw [h]

/-- **One step.** Nothing undoes a load, and nothing changes what it came to. -/
theorem step_leads (w : World) (m : Move) : Leads w.state (w.step m).state := by
  cases m with
  | call op =>
    obtain ⟨s', stage, hcall, hengine, -⟩ := call_cases w op
    simp only [World.state, World.step, hcall, hengine]
    exact .refl _
  | go index =>
    simp only [World.state, World.step]
    cases h : w.tasks[index]? with
    | some t => rw [go_eq h]; exact leads_next w.service t.stage
    | none => rw [go_of_none h]; exact .refl _
  | tick => exact leads_tick w.service.engine
  | change loader => exact .refl _

theorem run_leads (w : World) (ms : List Move) : Leads w.state (w.run ms).state := by
  induction ms generalizing w with
  | nil => exact .refl _
  | cons m ms ih => exact (step_leads w m).trans (ih (w.step m))

/-! ## The invariant -/

/-- What an operation may answer, given what the load came to. -/
def Answers (settings : Settings) (outcome : Outcome) : Operation → Answer → Prop
  | .produce text, a => a = .diagnostics (diagnosticsWith outcome settings text)
  | .validate _ text, a => a = .stale ∨ a = .diagnostics (diagnosticsWith outcome settings text)
  | .load, a => a = match outcome with
    | .ok _ => .loaded
    | .error e => .unloadable e
  | _, _ => False

theorem Rest.answers (h : Rest op held) (outcome : Outcome) (s : Service) :
    Answers s.settings outcome op (complete outcome held s).1 := by
  cases h with
  | produce text => rfl
  | validate buffer text generation =>
    simp only [Answers, complete, Buffers.finish]
    split
    · exact .inr rfl
    · exact .inl rfl
  | load => cases outcome <;> rfl

/-- How far an operation is, given the load: it has seen nothing else than what the load came to,
and its answer follows from that. -/
def Task.Sound (settings : Settings) (state : LoadState) (t : Task) : Prop :=
  match t.stage with
  | .begun held => Rest t.op held
  | .waiting held => Rest t.op held ∧ state ≠ .idle
  | .served held outcome => Rest t.op held ∧ state = .resolved outcome
  | .done (some outcome) answer =>
    SingleFlight.needsEngine t.op = true ∧ state = .resolved outcome ∧
      Answers settings outcome t.op answer
  | .done none _ => SingleFlight.needsEngine t.op = false

theorem Task.Sound.mono {settings : Settings} {a b : LoadState} {t : Task}
    (h : t.Sound settings a) (hab : Leads a b) : t.Sound settings b := by
  obtain ⟨op, stage⟩ := t
  cases stage with
  | begun held => exact h
  | waiting held => exact ⟨h.1, hab.begun h.2⟩
  | served held outcome => exact ⟨h.1, hab.resolved _ h.2⟩
  | done seen answer =>
    cases seen with
    | some outcome => exact ⟨h.1, hab.resolved _ h.2.1, h.2.2⟩
    | none => exact h

/-- The next step of an operation keeps it sound, for the load as it is then. -/
theorem Task.Sound.next {t : Task} (h : t.Sound s.settings s.engine.state) :
    Task.Sound s.settings (t.stage.next s).2.engine.state ⟨t.op, (t.stage.next s).1⟩ := by
  obtain ⟨op, stage⟩ := t
  cases stage with
  | begun held => exact ⟨h, request_ne_idle s.engine⟩
  | waiting held =>
    simp only [Stage.next]
    split
    · next outcome houtcome => exact ⟨h.1, outcome?_eq.1 houtcome⟩
    · exact h
  | served held outcome =>
    refine ⟨h.1.needsEngine, ?_, h.1.answers outcome s⟩
    rw [show (Stage.served held outcome).next s =
      (.done (some outcome) (complete outcome held s).1, (complete outcome held s).2) from rfl]
    rw [(complete_engine outcome held s).1]
    exact h.2
  | done seen answer => exact h

theorem asked_next (s : Service) {stage : Stage} (h : stage.asked = true) :
    (stage.next s).1.asked = true := by
  cases stage with
  | begun held => cases h
  | waiting held =>
    simp only [Stage.next]
    split <;> rfl
  | served held outcome => rfl
  | done seen answer => exact h

/-- Without an engine the end of an operation publishes nothing. -/
theorem published_complete (e : LoadError) (held : Held) (s : Service) (b : String)
    (h : s.buffers.published b = []) : (complete (.error e) held s).2.buffers.published b = [] := by
  cases held with
  | produce text => exact h
  | load => exact h
  | validate buffer text generation =>
    simp only [complete, Buffers.finish, diagnosticsWith]
    split
    · simp only [Buffers.published]
      rw [Table.get_set]
      split
      · rfl
      · exact h
    · exact h

/-- Whether the loader was called is told by the operations, what they have seen is what the load
came to, and without an engine nothing is published. -/
structure Sound (settings : Settings) (w : World) : Prop where
  settings_eq : w.service.settings = settings
  once : Once w.service.engine
  tasks : ∀ t ∈ w.tasks, t.Sound settings w.state
  asked : w.state ≠ .idle → ∃ (i : ℕ) (t : Task), w.tasks[i]? = some t ∧ t.stage.asked = true
  silent : (∀ engine, w.state ≠ .resolved (.ok engine)) → ∀ b, w.published b = []

variable {settings : Settings}

theorem sound_new (loader : Loader) (settings : Settings) :
    Sound settings ⟨Service.new loader settings, []⟩ :=
  ⟨rfl, rfl, by simp, fun h => absurd rfl h, fun _ _ => rfl⟩

theorem Sound.call (h : Sound settings w) (op : Operation) : Sound settings (w.call op) := by
  obtain ⟨s', stage, hcall, hengine, hsettings, hpublished, hstage⟩ := call_cases w op
  have hstate : s'.engine.state = w.state := congrArg EngineCell.state hengine
  have hsound : Task.Sound settings w.state ⟨op, stage⟩ := by
    rcases hstage with ⟨held, hstart, rfl⟩ | ⟨answer, hnone, -, rfl⟩
    · exact (start?_spec hstart).1
    · show needsEngine op = false
      rw [← start?_isSome op w.service, hnone]
      rfl
  rw [hcall]
  refine ⟨hsettings.trans h.settings_eq, by rw [hengine]; exact h.once, ?_, ?_, ?_⟩
  · intro t ht
    rw [List.mem_append, List.mem_singleton] at ht
    rw [World.state, hstate]
    rcases ht with ht | rfl
    · exact h.tasks t ht
    · exact hsound
  · intro hidle
    rw [World.state, hstate] at hidle
    obtain ⟨i, t, hi, hasked⟩ := h.asked hidle
    have hlt := (List.getElem?_eq_some_iff.1 hi).1
    exact ⟨i, t, by rw [List.getElem?_append_left hlt, hi], hasked⟩
  · intro hfailed b
    rw [World.state, hstate] at hfailed
    rcases hpublished b with hb | hb
    · rw [World.published, hb]
      exact h.silent hfailed b
    · exact hb

theorem Sound.go (h : Sound settings w) (index : ℕ) : Sound settings (w.go index) := by
  cases hget : w.tasks[index]? with
  | none => rw [go_of_none hget]; exact h
  | some t =>
    have hlt : index < w.tasks.length := (List.getElem?_eq_some_iff.1 hget).1
    have ht : t.Sound settings w.state := h.tasks t (List.mem_of_getElem? hget)
    obtain ⟨hsettings, hengine⟩ := next_engine w.service t.stage
    have hleads := leads_next w.service t.stage
    rw [go_eq hget]
    refine ⟨by rw [hsettings]; exact h.settings_eq, ?_, ?_, ?_, ?_⟩
    · rcases hengine with he | ⟨held, -, he⟩
      · show Once (t.stage.next w.service).2.engine
        rw [he]; exact h.once
      · show Once (t.stage.next w.service).2.engine
        rw [he]; exact h.once.request
    · intro t' ht'
      rcases List.mem_or_eq_of_mem_set ht' with ht' | rfl
      · exact (h.tasks t' ht').mono hleads
      · rw [← h.settings_eq] at ht ⊢
        exact ht.next
    · intro hidle
      by_cases hbefore : w.state = .idle
      · -- the load begins with this step, so it is this operation that asks
        refine ⟨index, _, List.getElem?_set_self hlt, ?_⟩
        rcases hengine with he | ⟨held, hbegun, -⟩
        · refine absurd ?_ hidle
          show (t.stage.next w.service).2.engine.state = .idle
          rw [he]; exact hbefore
        · rw [hbegun]; rfl
      · obtain ⟨i, t', hi, hasked⟩ := h.asked hbefore
        by_cases hi' : index = i
        · subst hi'
          rw [hget] at hi
          cases hi
          exact ⟨index, _, List.getElem?_set_self hlt, asked_next _ hasked⟩
        · exact ⟨i, t', by rw [List.getElem?_set_ne hi', hi], hasked⟩
    · intro hfailed b
      have hbefore : ∀ engine, w.state ≠ .resolved (.ok engine) :=
        fun engine he => hfailed engine (hleads.resolved _ he)
      have hb := h.silent hbefore b
      -- only the end of an operation publishes, and what it has seen is a failure
      obtain ⟨op, stage⟩ := t
      cases stage with
      | begun held => exact hb
      | waiting held =>
        simp only [World.published, Stage.next]
        split <;> exact hb
      | served held outcome =>
        cases outcome with
        | ok engine => exact absurd ht.2 (hbefore engine)
        | error e => exact published_complete e held w.service b hb
      | done seen answer => exact hb

/-- Going on with the load, and another loader, keep the invariant. -/
theorem Sound.engine (h : Sound settings w) {cell : EngineCell}
    (hleads : Leads w.state cell.state) (hidle : w.state = .idle → cell.state = .idle)
    (honce : Once cell) :
    Sound settings { w with service := { w.service with engine := cell } } := by
  refine ⟨h.settings_eq, honce, fun t ht => (h.tasks t ht).mono hleads, fun hne => ?_, ?_⟩
  · exact h.asked fun hw => hne (hidle hw)
  · intro hfailed
    exact h.silent fun engine he => hfailed engine (hleads.resolved _ he)

theorem Sound.step (h : Sound settings w) (m : Move) : Sound settings (w.step m) := by
  cases m with
  | call op => exact h.call op
  | go index => exact h.go index
  | tick =>
    refine h.engine (leads_tick _) (fun hidle => ?_) h.once.tick
    have hstate : w.service.engine.state = .idle := hidle
    unfold EngineCell.tick
    rw [hstate]
    exact hstate
  | change loader => exact h.engine (.refl _) id h.once

/-- **The invariant holds along every run.** -/
theorem sound_run (h : Sound settings w) (ms : List Move) : Sound settings (w.run ms) := by
  induction ms generalizing w with
  | nil => exact h
  | cons m ms ih => exact ih (h.step m)

theorem sound_worldAt (loader : Loader) (settings : Settings) (ms : List Move) (n : ℕ) :
    Sound settings (worldAt loader settings ms n) :=
  sound_run (sound_new loader settings) _

/-! ## The end of a load -/

/-- A load with `n` pauses to come, after `j` of them. -/
theorem repeat_tick {cell : EngineCell} {n j : ℕ} (h : cell.state = .loading n) (hn : 0 < n)
    (hj : j ≤ n) :
    Nat.repeat EngineCell.tick j cell =
      { cell with state := EngineCell.after cell.loader (n - j) } := by
  induction j with
  | zero =>
    obtain ⟨m, rfl⟩ := Nat.exists_eq_succ_of_ne_zero (Nat.pos_iff_ne_zero.1 hn)
    have hstate : cell.state = EngineCell.after cell.loader (m + 1) := h
    rw [Nat.repeat, Nat.sub_zero, ← hstate]
  | succ j ih =>
    have hpause : n - j = (n - (j + 1)) + 1 := by omega
    rw [Nat.repeat, ih (by omega), hpause]
    rfl

theorem settle_eq {cell : EngineCell} {n : ℕ} (h : cell.state = .loading n) (hn : 0 < n) :
    cell.settle = { cell with state := .resolved cell.loader.outcome } := by
  unfold EngineCell.settle
  rw [h]
  have hall := repeat_tick h hn (Nat.le_refl n)
  rw [Nat.sub_self] at hall
  exact hall

theorem settle_of_forall_ne {cell : EngineCell} (h : ∀ n, cell.state ≠ .loading n) :
    cell.settle = cell := by
  unfold EngineCell.settle
  split
  · next n hn => exact absurd hn (h n)
  · rfl

theorem run_append (w : World) (ms ms' : List Move) :
    w.run (ms ++ ms') = (w.run ms).run ms' := by
  simp [World.run]

theorem run_ticks (w : World) (k : ℕ) :
    w.run (List.replicate k .tick) = { w with service :=
      { w.service with engine := Nat.repeat EngineCell.tick k w.service.engine } } := by
  induction k with
  | zero => rfl
  | succ k ih => rw [List.replicate_succ', run_append, ih]; rfl

/-- A load comes to its end by going on. -/
theorem exists_settle (w : World) : ∃ k, w.run (List.replicate k .tick) =
    { w with service := w.service.settle } := by
  by_cases h : ∃ n, w.service.engine.state = .loading n
  · obtain ⟨n, hn⟩ := h
    refine ⟨n, ?_⟩
    rw [run_ticks, Service.settle, EngineCell.settle, hn]
  · refine ⟨0, ?_⟩
    rw [Service.settle, settle_of_forall_ne (fun n hn => h ⟨n, hn⟩)]
    rfl

/-- A load that has begun is over when it is settled. -/
theorem resolved_settle {cell : EngineCell} (h : Once cell) (hidle : cell.state ≠ .idle) :
    ∃ outcome, cell.settle.state = .resolved outcome := by
  cases hstate : cell.state with
  | idle => exact absurd hstate hidle
  | loading n =>
    rw [Once, hstate] at h
    exact ⟨_, by rw [settle_eq hstate h.2]⟩
  | resolved outcome =>
    refine ⟨outcome, ?_⟩
    rw [settle_of_forall_ne (by simp [hstate])]
    exact hstate

theorem go_mid (s : Service) (pre post : List Task) (t : Task) :
    World.go ⟨s, pre ++ t :: post⟩ pre.length =
      ⟨(t.stage.next s).2, pre ++ { t with stage := (t.stage.next s).1 } :: post⟩ := by
  have hget : (pre ++ t :: post)[pre.length]? = some t := by simp
  rw [go_eq hget]
  simp

theorem next_waiting (h : s.engine.state = .resolved outcome) (held : Held) :
    (Stage.waiting held).next s = (.served held outcome, s) := by
  simp only [Stage.next, outcome?_eq.2 h]

/-- An operation that waits for a load that is over ends with two more steps. -/
theorem run_waiting (h : s.engine.state = .resolved outcome) (pre post : List Task)
    (op : Operation) (held : Held) :
    World.run ⟨s, pre ++ ⟨op, .waiting held⟩ :: post⟩ [.go pre.length, .go pre.length] =
      ⟨(complete outcome held s).2,
        pre ++ ⟨op, .done (some outcome) (complete outcome held s).1⟩ :: post⟩ := by
  show World.go (World.go _ _) _ = _
  rw [go_mid, next_waiting h, go_mid]
  rfl

/-- An operation that is answered has no steps left. -/
theorem run_done (s : Service) (pre post : List Task) (op : Operation) (seen : Option Outcome)
    (a : Answer) (k : ℕ) :
    World.run ⟨s, pre ++ ⟨op, .done seen a⟩ :: post⟩ (List.replicate k (.go pre.length)) =
      ⟨s, pre ++ ⟨op, .done seen a⟩ :: post⟩ := by
  induction k with
  | zero => rfl
  | succ k ih =>
    rw [List.replicate_succ', run_append, ih]
    exact go_mid s pre post ⟨op, .done seen a⟩

theorem isBegun_next (s : Service) (stage : Stage) : (stage.next s).1.isBegun = false := by
  cases stage with
  | begun held => rfl
  | waiting held =>
    simp only [Stage.next]
    split <;> rfl
  | served held outcome => rfl
  | done seen answer => rfl

/-- At the end of the load, an operation that has asked for the engine ends with two steps. -/
theorem run_settled {stage : Stage} {pre post : List Task}
    (h : Sound settings ⟨s, pre ++ ⟨op, stage⟩ :: post⟩) (hstage : stage.isBegun = false) :
    ∃ seen a s', World.run ⟨s.settle, pre ++ ⟨op, stage⟩ :: post⟩ [.go pre.length, .go pre.length] =
      ⟨s', pre ++ ⟨op, .done seen a⟩ :: post⟩ := by
  have ht := h.tasks ⟨op, stage⟩ (by simp)
  cases stage with
  | begun held => cases hstage
  | waiting held =>
    obtain ⟨outcome, houtcome⟩ := resolved_settle h.once ht.2
    exact ⟨_, _, _, run_waiting (s := s.settle) houtcome pre post op held⟩
  | served held outcome =>
    refine ⟨some outcome, (complete outcome held s.settle).1,
      (complete outcome held s.settle).2, ?_⟩
    show World.go (World.go _ _) _ = _
    rw [go_mid]
    exact run_done _ pre post op _ _ 1
  | done seen a => exact ⟨seen, a, s.settle, run_done s.settle pre post op seen a 2⟩

/-- **No operation is held up for good**: it asks, the load goes on to its end, and the operation
is answered. -/
theorem ends (h : Sound settings w) {i : ℕ} (hi : i < w.tasks.length) :
    ∃ k t, (w.run (.go i :: (List.replicate k .tick ++ [.go i, .go i]))).tasks[i]? = some t ∧
      t.stage.answer?.isSome = true := by
  obtain ⟨s, tasks⟩ := w
  obtain ⟨pre, ⟨op, stage⟩, post, rfl, rfl⟩ : ∃ pre t post, tasks = pre ++ t :: post ∧
      pre.length = i :=
    ⟨tasks.take i, tasks[i], tasks.drop (i + 1), by simp, by simpa using hi.le⟩
  have hfirst := h.go pre.length
  rw [go_mid] at hfirst
  obtain ⟨seen, a, s', hrun⟩ := run_settled hfirst (isBegun_next s stage)
  obtain ⟨k, hk⟩ := exists_settle ⟨(stage.next s).2, pre ++ ⟨op, (stage.next s).1⟩ :: post⟩
  refine ⟨k, ⟨op, .done seen a⟩, ?_, rfl⟩
  have hmoves : World.run ⟨s, pre ++ ⟨op, stage⟩ :: post⟩
      (.go pre.length :: (List.replicate k .tick ++ [.go pre.length, .go pre.length])) =
        ⟨s', pre ++ ⟨op, .done seen a⟩ :: post⟩ := by
    show World.run (World.go _ _) _ = _
    rw [go_mid, run_append, hk, hrun]
  rw [hmoves]
  simp

/-! ## Operations in a row and side by side -/

/-- How far an operation is, as the service tells it. -/
def Matches : Progress → Stage → Prop
  | .done a, stage => ∃ seen, stage = .done seen a
  | .held held, stage => stage = .waiting held

/-- Beginning an operation is a call of it and its first three steps. -/
theorem begin_run (w : World) (op : Operation) :
    ∃ stage, Matches (w.service.begin op).1 stage ∧
      w.run (.call op :: List.replicate 3 (.go w.tasks.length)) =
        ⟨(w.service.begin op).2, w.tasks ++ [⟨op, stage⟩]⟩ := by
  obtain ⟨s', stage, hcall, -, -, -, ⟨held, hstart, rfl⟩ | ⟨a, -, hbegin, rfl⟩⟩ := call_cases w op
  · have hsteps : w.run (.call op :: List.replicate 3 (.go w.tasks.length)) =
        World.run ⟨{ s' with engine := s'.engine.request }, w.tasks ++ [⟨op, .waiting held⟩]⟩
          [.go w.tasks.length, .go w.tasks.length] := by
      show World.run (World.go (World.call _ _) _) _ = _
      rw [hcall, go_mid]
      rfl
    rw [hsteps, (start?_spec hstart).2.1, needEngine, resume]
    cases houtcome : s'.engine.request.outcome? with
    | some outcome => exact ⟨_, ⟨_, rfl⟩, run_waiting (outcome?_eq.1 houtcome) w.tasks [] op held⟩
    | none =>
      refine ⟨.waiting held, rfl, ?_⟩
      have hnext : (Stage.waiting held).next { s' with engine := s'.engine.request } =
          (.waiting held, { s' with engine := s'.engine.request }) := by
        simp only [Stage.next, houtcome]
      show World.go (World.go _ _) _ = _
      rw [go_mid, hnext, go_mid, hnext]
  · refine ⟨.done none a, ?_, ?_⟩
    · rw [hbegin]
      exact ⟨none, rfl⟩
    · show World.run (World.call _ _) _ = _
      rw [hcall, hbegin]
      exact run_done s' w.tasks [] op none a 3

theorem beginAll_run (w : World) (ops : List Operation) :
    ∃ ms ts, w.run ms = ⟨(beginAll ops w.service).2, w.tasks ++ ts⟩ ∧ ts.map Task.op = ops ∧
      List.Forall₂ Matches (beginAll ops w.service).1 (ts.map Task.stage) := by
  induction ops generalizing w with
  | nil => exact ⟨[], [], by simp [World.run, beginAll], rfl, .nil⟩
  | cons op ops ih =>
    obtain ⟨stage, hstage, hrun⟩ := begin_run w op
    obtain ⟨ms, ts, hms, hops, hmatches⟩ :=
      ih ⟨(w.service.begin op).2, w.tasks ++ [⟨op, stage⟩]⟩
    refine ⟨.call op :: List.replicate 3 (.go w.tasks.length) ++ ms, ⟨op, stage⟩ :: ts, ?_,
      by rw [List.map_cons, hops], .cons hstage hmatches⟩
    rw [run_append, hrun, hms]
    simp [beginAll]

theorem request_of_ne_idle {cell : EngineCell} (h : cell.state ≠ .idle) : cell.request = cell := by
  unfold EngineCell.request
  split
  · next hidle => exact absurd hidle h
  · rfl

/-- An operation is held up only while a load is under way. -/
theorem begin_held (h : (s.begin op).1 = .held held) :
    ∃ n, (s.begin op).2.engine.state = .loading n := by
  cases hstart : start? op s with
  | none =>
    obtain ⟨a, s', hbegin, -⟩ := begin_of_none hstart
    rw [hbegin] at h
    cases h
  | some r =>
    obtain ⟨held', s'⟩ := r
    rw [(start?_spec hstart).2.1, needEngine, resume] at h ⊢
    cases houtcome : s'.engine.request.outcome? with
    | some outcome => simp only [houtcome] at h; cases h
    | none =>
      have hidle := request_ne_idle s'.engine
      unfold EngineCell.outcome? at houtcome
      cases hstate : s'.engine.request.state with
      | idle => exact absurd hstate hidle
      | loading n => exact ⟨n, rfl⟩
      | resolved outcome => rw [hstate] at houtcome; cases houtcome

theorem begin_loading {n : ℕ} (h : s.engine.state = .loading n) (op : Operation) :
    (s.begin op).2.engine = s.engine := by
  cases hstart : start? op s with
  | none =>
    obtain ⟨a, s', hbegin, hengine, -⟩ := begin_of_none hstart
    rw [hbegin]
    exact hengine
  | some r =>
    obtain ⟨held, s'⟩ := r
    obtain ⟨-, hbegin, hengine, -⟩ := start?_spec hstart
    have hrequest : s'.engine.request = s.engine := by
      rw [hengine]
      exact request_of_ne_idle (by simp [h])
    rw [hbegin, needEngine, resume]
    split
    · next outcome _ =>
      rw [(complete_engine outcome held _).1]
      exact hrequest
    · exact hrequest

theorem beginAll_loading {n : ℕ} (h : s.engine.state = .loading n) (ops : List Operation) :
    (beginAll ops s).2.engine = s.engine := by
  induction ops generalizing s with
  | nil => rfl
  | cons op ops ih =>
    have hop := begin_loading h op
    show (beginAll ops (s.begin op).2).2.engine = _
    rw [ih (by rw [hop]; exact h), hop]

theorem beginAll_held {ops : List Operation} (h : .held held ∈ (beginAll ops s).1) :
    ∃ n, (beginAll ops s).2.engine.state = .loading n := by
  induction ops generalizing s with
  | nil => cases h
  | cons op ops ih =>
    rcases List.mem_cons.1 h with h | h
    · obtain ⟨n, hn⟩ := begin_held h.symm
      refine ⟨n, ?_⟩
      show (beginAll ops (s.begin op).2).2.engine.state = _
      rw [beginAll_loading hn, hn]
    · exact ih h

/-- The ends of operations in order, when those that wait can go on. -/
theorem concludeAll_run (s : Service) (pre ts : List Task) (ps : List Progress)
    (hmatches : List.Forall₂ Matches ps (ts.map Task.stage))
    (hover : ∀ held, .held held ∈ ps → s.engine.state = .resolved s.engine.loader.outcome) :
    ∃ ms ts', World.run ⟨s, pre ++ ts⟩ ms = ⟨(concludeAll ps s).2, pre ++ ts'⟩ ∧
      ts'.map Task.op = ts.map Task.op ∧
      ts'.map (fun t => t.stage.answer?) = (concludeAll ps s).1.map some := by
  induction ts generalizing s pre ps with
  | nil =>
    obtain rfl : ps = [] := List.forall₂_nil_right_iff.1 hmatches
    exact ⟨[], [], rfl, rfl, rfl⟩
  | cons t ts ih =>
    obtain ⟨op, stage⟩ := t
    obtain ⟨p, ps', hp, hps, rfl⟩ := List.forall₂_cons_right_iff.1 hmatches
    -- the operation's own end leaves the load alone
    have hend : ∃ ms seen, World.run ⟨s, pre ++ ⟨op, stage⟩ :: ts⟩ ms =
        ⟨(conclude p s).2, pre ++ ⟨op, .done seen (conclude p s).1⟩ :: ts⟩ ∧
          (conclude p s).2.engine = s.engine := by
      cases p with
      | done a =>
        obtain ⟨seen, rfl⟩ := hp
        exact ⟨[], seen, rfl, rfl⟩
      | held held =>
        cases hp
        have hresolved := hover held List.mem_cons_self
        exact ⟨_, _, run_waiting hresolved pre ts op held, (complete_engine _ held s).1⟩
    obtain ⟨ms, seen, hms, hengine⟩ := hend
    obtain ⟨ms', ts', hms', hops, hanswers⟩ :=
      ih (conclude p s).2 (pre ++ [⟨op, .done seen (conclude p s).1⟩]) ps' hps (by
        intro held hheld
        rw [hengine]
        exact hover held (List.mem_cons_of_mem _ hheld))
    refine ⟨ms ++ ms', ⟨op, .done seen (conclude p s).1⟩ :: ts', ?_, ?_, ?_⟩
    · rw [run_append, hms]
      rw [List.append_assoc, List.singleton_append] at hms'
      rw [hms']
      simp [concludeAll]
    · rw [List.map_cons, List.map_cons, hops]
    · rw [List.map_cons, hanswers]
      rfl

/-- **Operations side by side are a run**: they begin in order, the load comes to its end, and they
end in order. -/
theorem together_run (h : Sound settings w) (ops : List Operation) :
    ∃ ms ts, w.run ms = ⟨(w.service.together ops).2, w.tasks ++ ts⟩ ∧ ts.map Task.op = ops ∧
      ts.map (fun t => t.stage.answer?) = (w.service.together ops).1.map some := by
  obtain ⟨ms₁, ts, hms₁, hops, hmatches⟩ := beginAll_run w ops
  obtain ⟨k, hk⟩ := exists_settle (w.run ms₁)
  have honce := (sound_run h ms₁).once
  rw [hms₁] at hk honce
  have hover : ∀ held, .held held ∈ (beginAll ops w.service).1 →
      (beginAll ops w.service).2.settle.engine.state =
        .resolved (beginAll ops w.service).2.settle.engine.loader.outcome := by
    intro held hheld
    obtain ⟨n, hn⟩ := beginAll_held hheld
    have hpos : 0 < n := by
      rw [Once, hn] at honce
      exact honce.2
    simp only [Service.settle]
    rw [settle_eq hn hpos]
  obtain ⟨ms₂, ts', hms₂, hops', hanswers⟩ :=
    concludeAll_run (beginAll ops w.service).2.settle w.tasks ts _ hmatches hover
  refine ⟨ms₁ ++ (List.replicate k .tick ++ ms₂), ts', ?_, hops'.trans hops, hanswers⟩
  rw [run_append, hms₁, run_append, hk]
  exact hms₂

/-- An operation that runs alone is the case of a list with one entry. -/
example (s : Service) (op : Operation) :
    s.together [op] = ([(s.perform op).1], (s.perform op).2) := rfl

/-! ## Whole runs -/

/-- The load is over with what the loader gives, or not over yet. -/
structure Steady (loader : Loader) (cell : EngineCell) : Prop where
  loader : cell.loader = loader
  outcome : ∀ outcome, cell.state = .resolved outcome → outcome = cell.loader.outcome

theorem steady_after (cell : EngineCell) (n : ℕ) :
    Steady cell.loader { cell with state := EngineCell.after cell.loader n } := by
  refine ⟨rfl, fun outcome h => ?_⟩
  cases n with
  | zero => exact (LoadState.resolved.inj h).symm
  | succ n => cases h

theorem Steady.request {loader : Loader} {cell : EngineCell} (h : Steady loader cell) :
    Steady loader cell.request := by
  unfold EngineCell.request
  split
  · rw [← h.loader]
    exact steady_after { cell with loads := cell.loads + 1 } _
  · exact h

theorem Steady.step {loader : Loader} (h : Steady loader w.service.engine) {m : Move}
    (hm : ∀ l, m ≠ .change l) : Steady loader (w.step m).service.engine := by
  cases m with
  | call op =>
    obtain ⟨s', stage, hcall, hengine, -⟩ := call_cases w op
    rw [World.step, hcall, hengine]
    exact h
  | go index =>
    rw [World.step]
    cases hget : w.tasks[index]? with
    | none => rw [go_of_none hget]; exact h
    | some t =>
      rw [go_eq hget]
      show Steady loader (t.stage.next w.service).2.engine
      obtain ⟨-, he | ⟨held, -, he⟩⟩ := next_engine w.service t.stage
      · rw [he]; exact h
      · rw [he]; exact h.request
  | tick =>
    show Steady loader w.service.engine.tick
    unfold EngineCell.tick
    split
    · rw [← h.loader]
      exact steady_after w.service.engine _
    · exact h
  | change l => exact absurd rfl (hm l)

theorem steady_run {loader : Loader} (h : Steady loader w.service.engine) {ms : List Move}
    (hms : ∀ l, .change l ∉ ms) : Steady loader (w.run ms).service.engine := by
  induction ms generalizing w with
  | nil => exact h
  | cons m ms ih =>
    refine ih (h.step fun l hm => hms l (by rw [hm]; exact List.mem_cons_self)) fun l hl => ?_
    exact hms l (List.mem_cons_of_mem _ hl)

theorem Sound.seen (h : Sound settings w) {t : Task} (ht : t ∈ w.tasks)
    (hseen : t.stage.seen? = some outcome) : w.state = .resolved outcome := by
  have hsound := h.tasks t ht
  obtain ⟨op, stage⟩ := t
  cases stage with
  | begun held => cases hseen
  | waiting held => cases hseen
  | served held o => cases hseen; exact hsound.2
  | done seen a => cases hseen; exact hsound.2.1

theorem Sound.answer (h : Sound settings w) {t : Task} (ht : t ∈ w.tasks) {a : Answer}
    (ha : t.stage.answer? = some a) (hneeds : needsEngine t.op = true) :
    ∃ outcome, t.stage.seen? = some outcome ∧ w.service.engine.outcome? = some outcome ∧
      Answers settings outcome t.op a := by
  have hsound := h.tasks t ht
  obtain ⟨op, stage⟩ := t
  cases stage with
  | begun held => cases ha
  | waiting held => cases ha
  | served held o => cases ha
  | done seen a =>
    cases ha
    cases seen with
    | some outcome => exact ⟨outcome, rfl, outcome?_eq.2 hsound.2.1, hsound.2.2⟩
    | none =>
      have hnone : needsEngine op = false := hsound
      rw [hnone] at hneeds
      cases hneeds

/-- The loader was called if some operation has asked for the engine. -/
theorem Sound.asked_iff (h : Sound settings w) :
    w.state ≠ .idle ↔ ∃ t ∈ w.tasks, t.stage.asked = true := by
  constructor
  · intro hidle
    obtain ⟨i, t, hi, hasked⟩ := h.asked hidle
    exact ⟨t, List.mem_of_getElem? hi, hasked⟩
  · rintro ⟨⟨op, stage⟩, ht, hasked⟩
    have hsound := h.tasks _ ht
    cases stage with
    | begun held => cases hasked
    | waiting held => exact hsound.2
    | served held o => rw [hsound.2]; simp
    | done seen a =>
      obtain ⟨outcome, rfl⟩ := Option.isSome_iff_exists.1 hasked
      rw [hsound.2.1]
      simp

/-- An operation that is past its first step has asked for the engine if it needs it. -/
theorem Task.Sound.asked_eq {state : LoadState} {t : Task} (h : t.Sound settings state)
    (hbegun : t.stage.isBegun = false) : t.stage.asked = SingleFlight.needsEngine t.op := by
  obtain ⟨op, stage⟩ := t
  cases stage with
  | begun held => cases hbegun
  | waiting held => exact h.1.needsEngine.symm
  | served held o => exact h.1.needsEngine.symm
  | done seen a =>
    cases seen with
    | some outcome => exact h.1.symm
    | none => exact Eq.symm h

theorem Sound.loads_iff (h : Sound settings w) :
    w.service.engine.loads = 1 ↔ ∃ t ∈ w.tasks, t.stage.asked = true :=
  h.once.loads_eq.2.trans h.asked_iff

/-- Whoever begins an operation that needs the engine has it loaded. -/
theorem Sound.loads_begin (h : Sound settings w) (hneeds : needsEngine op = true) :
    (w.service.begin op).2.engine.loads = 1 := by
  obtain ⟨stage, hmatches, hrun⟩ := begin_run w op
  have hsound := sound_run h (.call op :: List.replicate 3 (.go w.tasks.length))
  have hbegun : stage.isBegun = false := by
    cases hp : (w.service.begin op).1 with
    | done a =>
      rw [hp] at hmatches
      obtain ⟨seen, rfl⟩ := hmatches
      rfl
    | held held =>
      rw [hp] at hmatches
      cases hmatches
      rfl
  rw [hrun] at hsound
  refine hsound.loads_iff.2 ⟨⟨op, stage⟩, by simp, ?_⟩
  rw [(hsound.tasks ⟨op, stage⟩ (by simp)).asked_eq hbegun]
  exact hneeds

theorem error?_eq {cell : EngineCell} {e : LoadError} :
    cell.error? = some e ↔ cell.state = .resolved (.error e) := by
  rw [← outcome?_eq, EngineCell.error?]
  cases cell.outcome? with
  | none => simp
  | some o => cases o <;> simp

/-- **After a failure**, validating publishes nothing and there are no diagnostics. -/
theorem begin_failed {e : LoadError} (h : s.engine.error? = some e) (buffer text : String) :
    (s.begin (.produce text)).1 = .done (.diagnostics []) ∧
      (s.begin (.validate buffer text)).1 = .done (.diagnostics []) ∧
      (s.begin (.validate buffer text)).2.buffers.published buffer = [] := by
  have hstate := error?_eq.1 h
  have hrequest : s.engine.request = s.engine := request_of_ne_idle (by simp [hstate])
  have houtcome : s.engine.outcome? = some (.error e) := outcome?_eq.2 hstate
  simp [Service.begin, needEngine, resume, hrequest, houtcome, complete, Buffers.finish,
    Buffers.start, Buffers.published, diagnosticsWith]

theorem worldAt_of_le (loader : Loader) (settings : Settings) (ms : List Move) {n n' : ℕ}
    (h : n ≤ n') : ∃ ms', worldAt loader settings ms n' =
      (worldAt loader settings ms n).run ms' := by
  refine ⟨(ms.take n').drop n, ?_⟩
  have hsplit : ms.take n' = ms.take n ++ (ms.take n').drop n := by
    conv_lhs => rw [← List.take_append_drop n (ms.take n')]
    rw [List.take_take, Nat.min_eq_left h]
  calc worldAt loader settings ms n'
    _ = World.run ⟨Service.new loader settings, []⟩ (ms.take n ++ (ms.take n').drop n) := by
      rw [← hsplit, worldAt]
    _ = (worldAt loader settings ms n).run ((ms.take n').drop n) := run_append _ _ _

/-- **One load for all operations**, however they overlap and whatever the loader would do if it
were called again.

The loader is called at most once, and it is called as soon as an operation that needs the engine
has asked for it. All operations that need the engine see the same outcome, which is what the
loader gave and which stays, and each of them is answered by it. After a failure there are no
diagnostics and nothing is published. No operation is held up for good, and operations run by the
service in a row or side by side are such runs. -/
theorem load_once (loader : Loader) (settings : Settings) (ms : List Move) :
    (∀ n, (worldAt loader settings ms n).service.engine.loads ≤ 1 ∧
      ((worldAt loader settings ms n).service.engine.loads = 1 ↔
        ∃ t ∈ (worldAt loader settings ms n).tasks, t.stage.asked = true) ∧
      ((∀ t ∈ (worldAt loader settings ms n).tasks, t.stage.isBegun = false) →
        ((worldAt loader settings ms n).service.engine.loads = 1 ↔
          ∃ t ∈ (worldAt loader settings ms n).tasks, needsEngine t.op = true)) ∧
      ∀ op, needsEngine op = true →
        ((worldAt loader settings ms n).service.begin op).2.engine.loads = 1) ∧
    (∀ n n' t t' outcome outcome', t ∈ (worldAt loader settings ms n).tasks →
      t' ∈ (worldAt loader settings ms n').tasks → t.stage.seen? = some outcome →
      t'.stage.seen? = some outcome' → outcome = outcome') ∧
    (∀ n t a, t ∈ (worldAt loader settings ms n).tasks → t.stage.answer? = some a →
      needsEngine t.op = true → ∃ outcome, t.stage.seen? = some outcome ∧
        (worldAt loader settings ms n).service.engine.outcome? = some outcome ∧
        Answers settings outcome t.op a) ∧
    ((∀ l, .change l ∉ ms) → ∀ n outcome,
      (worldAt loader settings ms n).service.engine.outcome? = some outcome →
        outcome = loader.outcome) ∧
    (∀ n n', n ≤ n' → (worldAt loader settings ms n).service.engine.isResolved = true →
      (worldAt loader settings ms n').service.engine.isResolved = true ∧
        (worldAt loader settings ms n').service.engine.error? =
          (worldAt loader settings ms n).service.engine.error?) ∧
    (∀ n e, (worldAt loader settings ms n).service.engine.error? = some e →
      (∀ b, (worldAt loader settings ms n).published b = []) ∧
      (∀ t ∈ (worldAt loader settings ms n).tasks, ∀ a, t.stage.answer? = some a →
        (∀ text, t.op = .produce text → a = .diagnostics []) ∧
        (∀ b text, t.op = .validate b text → a = .stale ∨ a = .diagnostics [])) ∧
      ∀ b text, ((worldAt loader settings ms n).service.begin (.produce text)).1 =
          .done (.diagnostics []) ∧
        ((worldAt loader settings ms n).service.begin (.validate b text)).1 =
          .done (.diagnostics []) ∧
        ((worldAt loader settings ms n).service.begin (.validate b text)).2.buffers.published b =
          []) ∧
    (∀ n i, i < (worldAt loader settings ms n).tasks.length → ∃ k t,
      ((worldAt loader settings ms n).run
        (.go i :: (List.replicate k .tick ++ [.go i, .go i]))).tasks[i]? = some t ∧
        t.stage.answer?.isSome = true) ∧
    (∀ n ops, ∃ ms' ts, (worldAt loader settings ms n).run ms' =
        ⟨((worldAt loader settings ms n).service.together ops).2,
          (worldAt loader settings ms n).tasks ++ ts⟩ ∧ ts.map Task.op = ops ∧
      ts.map (fun t => t.stage.answer?) =
        ((worldAt loader settings ms n).service.together ops).1.map some) := by
  have hsound := sound_worldAt loader settings ms
  refine ⟨fun n => ?_, ?_, fun n t a ht ha hneeds => (hsound n).answer ht ha hneeds, ?_, ?_, ?_,
    fun n i hi => ends (hsound n) hi, fun n ops => together_run (hsound n) ops⟩
  · have hasked := (hsound n).loads_iff
    refine ⟨(hsound n).once.loads_eq.1, hasked, fun hbegun => hasked.trans ?_,
      fun op hneeds => (hsound n).loads_begin hneeds⟩
    have heq : ∀ t ∈ (worldAt loader settings ms n).tasks, t.stage.asked = needsEngine t.op :=
      fun t ht => ((hsound n).tasks t ht).asked_eq (hbegun t ht)
    constructor
    · rintro ⟨t, ht, h⟩
      exact ⟨t, ht, by rw [← heq t ht, h]⟩
    · rintro ⟨t, ht, h⟩
      exact ⟨t, ht, by rw [heq t ht, h]⟩
  · intro n n' t t' outcome outcome' ht ht' hseen hseen'
    -- of two moments, the load at the later one is what it was at the earlier one
    have hstate := (hsound n).seen ht hseen
    have hstate' := (hsound n').seen ht' hseen'
    rcases Nat.le_total n n' with hle | hle
    · obtain ⟨ms', hms'⟩ := worldAt_of_le loader settings ms hle
      have hlater := (run_leads _ ms').resolved outcome hstate
      rw [← hms', hstate'] at hlater
      exact (LoadState.resolved.inj hlater).symm
    · obtain ⟨ms', hms'⟩ := worldAt_of_le loader settings ms hle
      have hlater := (run_leads _ ms').resolved outcome' hstate'
      rw [← hms', hstate] at hlater
      exact LoadState.resolved.inj hlater
  · intro hms n outcome houtcome
    have hnew : Steady loader (Service.new loader settings).engine := ⟨rfl, fun _ h => by cases h⟩
    have hsteady : Steady loader (worldAt loader settings ms n).service.engine :=
      steady_run hnew fun l hl => hms l (List.mem_of_mem_take hl)
    rw [hsteady.outcome outcome (outcome?_eq.1 houtcome), hsteady.loader]
  · intro n n' hle hresolved
    obtain ⟨outcome, houtcome⟩ := Option.isSome_iff_exists.1 hresolved
    obtain ⟨ms', hms'⟩ := worldAt_of_le loader settings ms hle
    have hlater := outcome?_eq.2 ((run_leads _ ms').resolved outcome (outcome?_eq.1 houtcome))
    rw [← hms'] at hlater
    rw [EngineCell.isResolved, EngineCell.error?, EngineCell.error?, hlater, houtcome]
    exact ⟨rfl, rfl⟩
  · intro n e he
    have hstate := error?_eq.1 he
    refine ⟨(hsound n).silent ?_, fun t ht a ha => ?_, fun b text => begin_failed he b text⟩
    · intro engine hok
      rw [World.state, hstate] at hok
      cases hok
    · have hanswer : ∀ op, t.op = op → needsEngine op = true →
          Answers settings (.error e) op a := by
        intro op hop hneeds
        obtain ⟨outcome, -, houtcome, h⟩ := (hsound n).answer ht ha (by rw [hop]; exact hneeds)
        rw [outcome?_eq.2 hstate] at houtcome
        cases houtcome
        rw [← hop]
        exact h
      exact ⟨fun text hop => hanswer _ hop rfl, fun b text hop => hanswer _ hop rfl⟩

end ScriptLint.SingleFlight
