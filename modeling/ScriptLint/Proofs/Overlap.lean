import Mathlib.Data.List.Basic
import Mathlib.Data.Nat.Notation
import ScriptLint.Service.Basic

/-!
# Overlapping validations

A validation is two steps of the service: it takes a number for its buffer when it starts, and
when it finishes it publishes its diagnostics if that number is still the buffer's latest. Any
other steps may come in between: starts and ends of other validations, on this buffer and on
others, and clears.

* `Service.worldAt`: the service, and the validations under way, after some of a run's events.
* `tracks_worldAt` (every run): a buffer's generation is the number of starts and clears of that
  buffer, and a validation holds the number as of its start.
* `published_succ`: what one event does to what is published about a buffer.
* `last_start_wins`: **a validation is answered exactly when nothing else began on its buffer
  meanwhile, and in the end each buffer shows the outcome of what began on it last.**
-/

namespace ScriptLint.Service

/-- A step on behalf of one of the callers. -/
inductive Event
  | start (buffer text : String)
  /-- The end of the validation that the event at `index` started. -/
  | finish (index : ℕ)
  | clear (buffer : String)
deriving DecidableEq, Repr

/-- Does the event begin work on the buffer? -/
def Event.touches (buffer : String) : Event → Bool
  | start b _ => b = buffer
  | finish _ => false
  | clear b => b = buffer

/-- The events of a run, each validation finishing after its start. -/
def Run (es : List Event) : Prop :=
  ∀ k i : ℕ, es[k]? = some (Event.finish i) → i < k ∧ ∃ b t, es[i]? = some (Event.start b t)

/-- The first step of a validation. -/
def startValidation (buffer text : String) (s : Service) : Held × Service :=
  let (generation, buffers) := s.buffers.start buffer
  (.validate buffer text generation, { s with buffers := buffers })

/-- Validating is the first step, and the rest as soon as there is an engine. -/
theorem begin_validate (buffer text : String) (s : Service) :
    s.begin (.validate buffer text) =
      needEngine (s.startValidation buffer text).1 (s.startValidation buffer text).2 := rfl

/-- A service, and for each event so far the validation that it started, if it did. -/
structure World where
  service : Service
  held : List (Option Held)

namespace World

/-- The last step of the validation that the event at `i` started: its answer and the service
behind it. -/
def finish (w : World) (i : ℕ) : Option (Answer × Service) :=
  w.held[i]?.join.map fun held => complete w.service.engine.loader.outcome held w.service

def step (w : World) : Event → World
  | .start b t =>
    let (held, s) := w.service.startValidation b t
    ⟨s, w.held ++ [some held]⟩
  | .finish i => ⟨((w.finish i).map Prod.snd).getD w.service, w.held ++ [none]⟩
  | .clear b => ⟨(w.service.begin (.clear b)).2, w.held ++ [none]⟩

end World

section Runs

variable (loader : Loader) (settings : Settings) (es : List Event)

/-- The world after the first `n` events. -/
def worldAt (n : ℕ) : World :=
  (es.take n).foldl World.step ⟨new loader settings, []⟩

/-- What is published about a buffer after the first `n` events. -/
def publishedAt (n : ℕ) (buffer : String) : List Diagnostic :=
  (worldAt loader settings es n).service.buffers.published buffer

/-- What the event at `k` answers if it finishes a validation. -/
def answerAt (k : ℕ) : Option Answer :=
  match es[k]? with
  | some (.finish i) => ((worldAt loader settings es k).finish i).map Prod.fst
  | _ => none

/-- The diagnostics of a text. -/
def produced (text : String) : List Diagnostic :=
  diagnosticsWith loader.outcome settings text

/-- No event strictly between two others begins work on the buffer. -/
def Untouched (buffer : String) (i k : ℕ) : Prop :=
  ∀ e ∈ (es.take k).drop (i + 1), e.touches buffer = false

instance (buffer : String) (i k : ℕ) : Decidable (Untouched es buffer i k) :=
  inferInstanceAs (Decidable (∀ e ∈ _, _))

/-- The list that the event at `k` publishes about the buffer, if it does: a clear publishes
nothing at all, the end of a validation its diagnostics unless they are stale. -/
def effect (buffer : String) (k : ℕ) : Option (List Diagnostic) :=
  match es[k]? with
  | some (.clear b) => if b = buffer then some [] else none
  | some (.finish i) =>
    match es[i]? with
    | some (.start b t) =>
      if b = buffer ∧ Untouched es buffer i k then some (produced loader settings t) else none
    | _ => none
  | _ => none

/-- How many of the first `n` events began work on the buffer. -/
def touched (buffer : String) (n : ℕ) : ℕ :=
  (es.take n).countP (Event.touches buffer)

end Runs

variable {loader : Loader} {settings : Settings} {es : List Event}

theorem settle_loader (cell : EngineCell) : cell.settle.loader = cell.loader := by
  have htick : ∀ cell : EngineCell, cell.tick.loader = cell.loader := by
    intro cell
    unfold EngineCell.tick
    split <;> rfl
  have hrepeat : ∀ n, (Nat.repeat EngineCell.tick n cell).loader = cell.loader := by
    intro n
    induction n with
    | zero => rfl
    | succ n ih => rw [Nat.repeat, htick, ih]
  unfold EngineCell.settle
  split
  · exact hrepeat _
  · rfl

/-- Asking for the diagnostics of a text gives them, however long loading takes. -/
theorem perform_produce (loader : Loader) (settings : Settings) (text : String) :
    ((new loader settings).perform (.produce text)).1 =
      .diagnostics (produced loader settings text) := by
  obtain ⟨pauses, outcome⟩ := loader
  cases pauses with
  | zero => rfl
  | succ n =>
    -- held up at first, and completed with the outcome of the settled cell
    show Answer.diagnostics (diagnosticsWith
      ((EngineCell.request ⟨⟨n + 1, outcome⟩, .idle, 0⟩).settle.loader.outcome) settings text) = _
    rw [settle_loader]
    rfl

theorem worldAt_succ {n : ℕ} {e : Event} (he : es[n]? = some e) :
    worldAt loader settings es (n + 1) = (worldAt loader settings es n).step e := by
  simp only [worldAt]
  rw [List.take_add_one, he, Option.toList_some, List.foldl_append]
  rfl

theorem touched_succ {n : ℕ} {e : Event} (he : es[n]? = some e) (b : String) :
    touched es b (n + 1) = touched es b n + if e.touches b then 1 else 0 := by
  simp only [touched]
  rw [List.take_add_one, he, Option.toList_some, List.countP_append, List.countP_singleton]

theorem untouched_iff {b : String} {i k : ℕ} (hik : i < k) :
    Untouched es b i k ↔ touched es b k = touched es b (i + 1) := by
  have hsplit : es.take k = es.take (i + 1) ++ (es.take k).drop (i + 1) := by
    conv_lhs => rw [← List.take_append_drop (i + 1) (es.take k)]
    rw [List.take_take, Nat.min_eq_left (by omega)]
  have hcount : touched es b k =
      touched es b (i + 1) + ((es.take k).drop (i + 1)).countP (Event.touches b) := by
    simp only [touched]
    conv_lhs => rw [hsplit]
    exact List.countP_append
  have hzero : ((es.take k).drop (i + 1)).countP (Event.touches b) = 0 ↔ Untouched es b i k := by
    rw [List.countP_eq_zero]
    simp only [Untouched, Bool.not_eq_true]
  -- the two counts differ by what lies strictly between
  rw [← hzero]
  omega

/-! ## The invariant -/

theorem complete_generation (outcome : Except LoadError Engine) (held : Held) (s : Service)
    (b : String) :
    ((complete outcome held s).2.buffers.get b).generation = (s.buffers.get b).generation := by
  cases held with
  | produce text => rfl
  | validate buffer text generation =>
    simp only [complete, Buffers.finish]
    split
    · rw [Table.get_set]
      split
      · rename_i hb; rw [hb]
      · rfl
    · rfl
  | load => cases outcome <;> rfl

theorem complete_engine (outcome : Except LoadError Engine) (held : Held) (s : Service) :
    (complete outcome held s).2.engine = s.engine ∧
      (complete outcome held s).2.settings = s.settings := by
  cases held with
  | produce text => exact ⟨rfl, rfl⟩
  | validate buffer text generation => exact ⟨rfl, rfl⟩
  | load => cases outcome <;> exact ⟨rfl, rfl⟩

/-- A world after `n` events of a run: each buffer's generation counts what began on it, and each
validation holds the count as of its start. -/
structure Tracks (loader : Loader) (settings : Settings) (es : List Event) (n : ℕ) (w : World) :
    Prop where
  loader : w.service.engine.loader = loader
  settings : w.service.settings = settings
  generation : ∀ b, (w.service.buffers.get b).generation = touched es b n
  length : w.held.length = n
  held : ∀ i b t, i < n → es[i]? = some (.start b t) →
    w.held[i]? = some (some (.validate b t (touched es b (i + 1))))

theorem Tracks.zero : Tracks loader settings es 0 ⟨new loader settings, []⟩ :=
  ⟨rfl, rfl, fun _ => rfl, rfl, fun i _ _ hi => absurd hi (Nat.not_lt_zero i)⟩

/-- The validations under way stay as they are when an event that starts none follows. -/
theorem Tracks.held_none {n : ℕ} {w : World} (hw : Tracks loader settings es n w) {e : Event}
    (he : es[n]? = some e) (hne : ∀ b t, e ≠ .start b t) (i : ℕ) (b t : String) (hi : i < n + 1)
    (hs : es[i]? = some (.start b t)) :
    (w.held ++ [none])[i]? = some (some (.validate b t (touched es b (i + 1)))) := by
  rcases Nat.eq_or_lt_of_le (Nat.le_of_lt_succ hi) with h | h
  · rw [h, he] at hs
    exact absurd (Option.some.inj hs) (hne b t)
  · rw [List.getElem?_append_left (by rw [hw.length]; exact h)]
    exact hw.held i b t h hs

theorem Tracks.step {n : ℕ} {w : World} (hw : Tracks loader settings es n w) {e : Event}
    (he : es[n]? = some e) : Tracks loader settings es (n + 1) (w.step e) := by
  cases e with
  | start b t =>
    refine ⟨hw.loader, hw.settings, ?_, by simp [World.step, hw.length], ?_⟩
    · intro b'
      simp only [World.step, startValidation, Buffers.start]
      rw [Table.get_set, touched_succ he, ← hw.generation b']
      by_cases hb : b' = b
      · simp [hb, Event.touches]
      · simp [hb, Event.touches, Ne.symm hb]
    · intro i b' t' hi hs
      simp only [World.step, startValidation, Buffers.start]
      rcases Nat.eq_or_lt_of_le (Nat.le_of_lt_succ hi) with h | h
      · -- the validation that starts here holds the generation just counted
        rw [h, he] at hs
        injection hs with hs
        injection hs with hb ht
        subst hb ht
        have hn : i = w.held.length := by rw [hw.length]; exact h
        rw [hn, List.getElem?_concat_length, hw.generation b, hw.length, touched_succ he]
        simp [Event.touches]
      · rw [List.getElem?_append_left (by rw [hw.length]; exact h)]
        exact hw.held i b' t' h hs
  | finish i =>
    -- whatever is held at `i`, the service is as it was but for the published list
    have hsame : (w.step (.finish i)).service = w.service ∨ ∃ held,
        (w.step (.finish i)).service =
          (complete w.service.engine.loader.outcome held w.service).2 := by
      simp only [World.step, World.finish]
      cases w.held[i]?.join with
      | none => exact .inl rfl
      | some held => exact .inr ⟨held, rfl⟩
    refine ⟨?_, ?_, ?_, by simp [World.step, hw.length], hw.held_none he (by simp)⟩
    · rcases hsame with h | ⟨held, h⟩
      · rw [h]; exact hw.loader
      · rw [h, (complete_engine _ held w.service).1]; exact hw.loader
    · rcases hsame with h | ⟨held, h⟩
      · rw [h]; exact hw.settings
      · rw [h, (complete_engine _ held w.service).2]; exact hw.settings
    · intro b
      rw [touched_succ he, ← hw.generation b]
      rcases hsame with h | ⟨held, h⟩
      · rw [h]; rfl
      · rw [h, complete_generation]; rfl
  | clear b =>
    refine ⟨hw.loader, hw.settings, ?_, by simp [World.step, hw.length],
      hw.held_none he (by simp)⟩
    intro b'
    simp only [World.step, begin, Buffers.clear]
    rw [Table.get_set, touched_succ he, ← hw.generation b']
    by_cases hb : b' = b
    · simp [hb, Event.touches]
    · simp [hb, Event.touches, Ne.symm hb]

/-- **The invariant holds along every run.** -/
theorem tracks_worldAt (loader : Loader) (settings : Settings) (es : List Event) {n : ℕ} :
    n ≤ es.length → Tracks loader settings es n (worldAt loader settings es n) := by
  induction n with
  | zero => intro _; exact Tracks.zero
  | succ n ih =>
    intro hn
    have he : es[n]? = some es[n] := List.getElem?_eq_getElem (by omega)
    rw [worldAt_succ he]
    exact (ih (by omega)).step he

/-! ## What one event does -/

theorem untouched_iff_getElem {b : String} {i k : ℕ} :
    Untouched es b i k ↔ ∀ j e, i < j → j < k → es[j]? = some e → e.touches b = false := by
  constructor
  · intro h j e hij hjk he
    apply h e
    rw [List.mem_iff_getElem?]
    refine ⟨j - (i + 1), ?_⟩
    rw [List.getElem?_drop, Nat.add_sub_cancel' hij, List.getElem?_take_of_lt hjk]
    exact he
  · intro h e hmem
    obtain ⟨m, hm⟩ := List.mem_iff_getElem?.1 hmem
    rw [List.getElem?_drop, List.getElem?_take] at hm
    split at hm
    · exact h (i + 1 + m) e (by omega) ‹_› hm
    · cases hm

theorem lt_length {k : ℕ} {e : Event} (he : es[k]? = some e) : k < es.length :=
  (List.getElem?_eq_some_iff.1 he).1

/-- The end of a validation finds the number that its start took. -/
theorem finish_worldAt {i k : ℕ} {b t : String} (hk : k < es.length) (hik : i < k)
    (hs : es[i]? = some (.start b t)) :
    (worldAt loader settings es k).finish i = some (complete loader.outcome
      (.validate b t (touched es b (i + 1))) (worldAt loader settings es k).service) := by
  have hw := tracks_worldAt loader settings es (Nat.le_of_lt hk)
  simp only [World.finish]
  rw [hw.held i b t hik hs, hw.loader]
  rfl

theorem answerAt_eq {i k : ℕ} {b t : String} (he : es[k]? = some (.finish i)) (hik : i < k)
    (hs : es[i]? = some (.start b t)) :
    answerAt loader settings es k = some
      (if Untouched es b i k then .diagnostics (produced loader settings t) else .stale) := by
  have hk := lt_length he
  have hw := tracks_worldAt loader settings es (Nat.le_of_lt hk)
  simp only [answerAt, he]
  rw [finish_worldAt hk hik hs]
  simp only [complete, Buffers.finish, hw.generation, hw.settings, ← untouched_iff hik]
  split <;> rfl

theorem effect_start {k : ℕ} {b' t : String} (he : es[k]? = some (.start b' t)) (b : String) :
    effect loader settings es b k = none := by
  simp only [effect, he]

theorem effect_clear {k : ℕ} {b' : String} (he : es[k]? = some (.clear b')) (b : String) :
    effect loader settings es b k = if b' = b then some [] else none := by
  simp only [effect, he]

theorem effect_finish {i k : ℕ} {b' t : String} (he : es[k]? = some (.finish i))
    (hs : es[i]? = some (.start b' t)) (b : String) :
    effect loader settings es b k =
      if b' = b ∧ Untouched es b i k then some (produced loader settings t) else none := by
  simp only [effect, he, hs]

/-- **One event.** It publishes its effect on the buffer, and without one it leaves alone what is
published. -/
theorem published_succ (hr : Run es) {n : ℕ} (hn : n < es.length) (b : String) :
    publishedAt loader settings es (n + 1) b =
      (effect loader settings es b n).getD (publishedAt loader settings es n b) := by
  have hw := tracks_worldAt loader settings es (Nat.le_of_lt hn)
  obtain ⟨e, he⟩ : ∃ e, es[n]? = some e := ⟨es[n], List.getElem?_eq_getElem hn⟩
  simp only [publishedAt]
  rw [worldAt_succ he]
  cases e with
  | start b' t =>
    rw [effect_start he]
    simp only [World.step, startValidation, Buffers.start, Buffers.published, Option.getD_none]
    rw [Table.get_set]
    split
    · rename_i hb; rw [hb]
    · rfl
  | finish i =>
    obtain ⟨hin, b', t, hs⟩ := hr n i he
    rw [effect_finish he hs]
    simp only [World.step, finish_worldAt hn hin hs, complete, Buffers.finish, hw.generation,
      hw.settings, Option.map_some, Option.getD_some, ← untouched_iff hin]
    by_cases hu : Untouched es b' i n
    · simp only [hu, if_true, Buffers.published]
      rw [Table.get_set]
      by_cases hb : b = b'
      · subst hb; simp [hu, produced]
      · simp [hb, Ne.symm hb]
    · have hnone : ¬(b' = b ∧ Untouched es b i n) := by rintro ⟨rfl, h⟩; exact hu h
      simp only [hu, hnone, if_false, Option.getD_none]
  | clear b' =>
    rw [effect_clear he]
    simp only [World.step, begin, Buffers.clear, Buffers.published]
    rw [Table.get_set]
    by_cases hb : b = b'
    · simp [hb]
    · simp [hb, Ne.symm hb]

/-! ## Whole runs -/

/-- The list is what the latest of the first `n` events to publish anything about the buffer has
published, and empty if none has. -/
def Latest (loader : Loader) (settings : Settings) (es : List Event) (buffer : String) (n : ℕ)
    (ds : List Diagnostic) : Prop :=
  (∃ k < n, effect loader settings es buffer k = some ds ∧
    ∀ j, k < j → j < n → effect loader settings es buffer j = none) ∨
  (ds = [] ∧ ∀ j < n, effect loader settings es buffer j = none)

/-- Every validation that has started has finished. -/
def Settled (es : List Event) : Prop :=
  ∀ i b t, es[i]? = some (.start b t) → ∃ k : ℕ, es[k]? = some (.finish i)

theorem latest_publishedAt (loader : Loader) (settings : Settings) (hr : Run es) (b : String)
    {n : ℕ} :
    n ≤ es.length → Latest loader settings es b n (publishedAt loader settings es n b) := by
  induction n with
  | zero => intro _; exact .inr ⟨rfl, fun j hj => absurd hj (Nat.not_lt_zero j)⟩
  | succ n ih =>
    intro hn
    rw [published_succ hr (by omega)]
    cases heff : effect loader settings es b n with
    | some ds => exact .inl ⟨n, by omega, heff, fun j h1 h2 => absurd h1 (by omega)⟩
    | none =>
      -- the latest so far stays the latest
      rw [Option.getD_none]
      have hlast : ∀ j, j < n + 1 → ¬j < n → effect loader settings es b j = none := by
        intro j h1 h2
        rw [show j = n by omega]; exact heff
      rcases ih (by omega) with ⟨k, hk, hds, hrest⟩ | ⟨hds, hrest⟩
      · refine .inl ⟨k, by omega, hds, fun j h1 h2 => ?_⟩
        by_cases hj : j < n
        · exact hrest j h1 hj
        · exact hlast j h2 hj
      · refine .inr ⟨hds, fun j h2 => ?_⟩
        by_cases hj : j < n
        · exact hrest j hj
        · exact hlast j h2 hj

/-- What an event publishes stays if later events publish the same or nothing. -/
theorem published_of_effect (hr : Run es) {b : String} {k : ℕ} {ds : List Diagnostic}
    (hk : effect loader settings es b k = some ds) {n : ℕ} (hkn : k < n) (hn : n ≤ es.length)
    (hrest : ∀ j, k < j → j < n → effect loader settings es b j = none ∨
      effect loader settings es b j = some ds) :
    publishedAt loader settings es n b = ds := by
  obtain ⟨m, hm, hds, hlast⟩ | ⟨-, hnone⟩ :=
    latest_publishedAt loader settings hr b hn
  · rcases Nat.lt_trichotomy m k with h | h | h
    · rw [hlast k h hkn] at hk; cases hk
    · rw [h, hk] at hds; exact (Option.some.inj hds).symm
    · rcases hrest m h hm with h' | h'
      · rw [h'] at hds; cases hds
      · rw [h'] at hds; exact (Option.some.inj hds).symm
  · rw [hnone k hkn] at hk; cases hk

/-- Behind the last event that begins work on a buffer, the only event that publishes anything
about it is the end of that work. -/
theorem effect_after (loader : Loader) (settings : Settings) (hr : Run es) {b : String} {k : ℕ}
    {e : Event} (he : es[k]? = some e) (hb : e.touches b = true)
    (hu : Untouched es b k es.length) {j : ℕ} (hkj : k < j) (hj : j < es.length) :
    effect loader settings es b j = none ∨
      ∃ t, e = .start b t ∧ effect loader settings es b j = some (produced loader settings t) := by
  rw [untouched_iff_getElem] at hu
  obtain ⟨e', he'⟩ : ∃ e', es[j]? = some e' := ⟨es[j], List.getElem?_eq_getElem hj⟩
  have huj := hu j e' hkj hj he'
  cases e' with
  | start b' t => exact .inl (effect_start he' b)
  | clear b' =>
    left
    rw [effect_clear he', if_neg (by simpa [Event.touches] using huj)]
  | finish i =>
    obtain ⟨hij, b', t, hs⟩ := hr j i he'
    rw [effect_finish he' hs]
    by_cases hcur : b' = b ∧ Untouched es b i j
    · obtain ⟨rfl, hcur⟩ := hcur
      rw [untouched_iff_getElem] at hcur
      -- the validation that ends was started neither before `k` nor behind it
      have hik : i = k := by
        rcases Nat.lt_trichotomy i k with h | h | h
        · rw [hcur k e h hkj he] at hb; cases hb
        · exact h
        · have := hu i _ h (by omega) hs
          simp [Event.touches] at this
      rw [hik, he] at hs
      right
      refine ⟨t, Option.some.inj hs, ?_⟩
      rw [if_pos ⟨rfl, untouched_iff_getElem.2 hcur⟩]
    · left
      rw [if_neg hcur]

theorem published_last_start (hr : Run es) (hs : Settled es) {b t : String} {k : ℕ}
    (he : es[k]? = some (.start b t)) (hu : Untouched es b k es.length) :
    publishedAt loader settings es es.length b = produced loader settings t := by
  have hb : (Event.start b t).touches b = true := by simp [Event.touches]
  obtain ⟨m, hm⟩ := hs k b t he
  have hml := lt_length hm
  have hkm := (hr m k hm).1
  -- nothing begins on the buffer behind `k`, so its end at `m` is not stale
  have hum : Untouched es b k m := by
    rw [untouched_iff_getElem] at hu ⊢
    intro j e h1 h2; exact hu j e h1 (by omega)
  have heff : effect loader settings es b m = some (produced loader settings t) := by
    rw [effect_finish hm he, if_pos ⟨rfl, hum⟩]
  refine published_of_effect hr heff hml (Nat.le_refl _) fun j h1 h2 => ?_
  rcases effect_after loader settings hr he hb hu (Nat.lt_trans hkm h1) h2 with h | ⟨t', ht, h⟩
  · exact .inl h
  · injection ht with _ ht
    exact .inr (by rw [h, ht])

theorem published_last_clear (hr : Run es) {b : String} {k : ℕ} (he : es[k]? = some (.clear b))
    (hu : Untouched es b k es.length) : publishedAt loader settings es es.length b = [] := by
  have hb : (Event.clear b).touches b = true := by simp [Event.touches]
  have heff : effect loader settings es b k = some [] := by
    rw [effect_clear he, if_pos rfl]
  refine published_of_effect hr heff (lt_length he) (Nat.le_refl _) fun j h1 h2 => ?_
  rcases effect_after loader settings hr he hb hu h1 h2 with h | ⟨t, ht, -⟩
  · exact .inl h
  · cases ht

theorem published_untouched (hr : Run es) {b : String} (hu : ∀ e ∈ es, e.touches b = false) :
    publishedAt loader settings es es.length b = [] := by
  obtain ⟨k, hk, heff, -⟩ | ⟨hnil, -⟩ :=
    latest_publishedAt loader settings hr b (Nat.le_refl _)
  · obtain ⟨e, he⟩ : ∃ e, es[k]? = some e := ⟨es[k], List.getElem?_eq_getElem hk⟩
    have hke := hu e (List.mem_of_getElem? he)
    cases e with
    | start b' t => rw [effect_start he] at heff; cases heff
    | clear b' =>
      rw [effect_clear he, if_neg (by simpa [Event.touches] using hke)] at heff
      cases heff
    | finish i =>
      obtain ⟨-, b', t, hs⟩ := hr k i he
      have hb : ¬b' = b := by simpa [Event.touches] using hu _ (List.mem_of_getElem? hs)
      rw [effect_finish he hs, if_neg (fun h => hb h.1)] at heff
      cases heff
  · exact hnil

/-- **The last start wins**, however validations and clears of any number of buffers interleave.

The end of a validation is answered with its diagnostics exactly when nothing else began on its
buffer since its start. At every moment a buffer shows what the latest event to publish about it
has published, and other events leave it alone. When no validation is under way any more, it shows
the outcome of what began on it last. -/
theorem last_start_wins (loader : Loader) (settings : Settings) (es : List Event) (hr : Run es) :
    (∀ t, ((new loader settings).perform (.produce t)).1 =
      .diagnostics (produced loader settings t)) ∧
    (∀ k i b t, es[k]? = some (.finish i) → es[i]? = some (.start b t) →
      answerAt loader settings es k = some
        (if Untouched es b i k then .diagnostics (produced loader settings t) else .stale)) ∧
    (∀ n b, n ≤ es.length →
      Latest loader settings es b n (publishedAt loader settings es n b)) ∧
    (∀ n b, n < es.length → effect loader settings es b n = none →
      publishedAt loader settings es (n + 1) b = publishedAt loader settings es n b) ∧
    (Settled es → ∀ b,
      (∀ k t, es[k]? = some (.start b t) → Untouched es b k es.length →
        publishedAt loader settings es es.length b = produced loader settings t) ∧
      (∀ k : ℕ, es[k]? = some (.clear b) → Untouched es b k es.length →
        publishedAt loader settings es es.length b = []) ∧
      ((∀ e ∈ es, e.touches b = false) → publishedAt loader settings es es.length b = [])) := by
  refine ⟨perform_produce loader settings, fun k i b t he hs => answerAt_eq he (hr k i he).1 hs,
    fun n b hn => latest_publishedAt loader settings hr b hn, ?_, ?_⟩
  · intro n b hn heff
    rw [published_succ hr hn, heff, Option.getD_none]
  · intro hs b
    exact ⟨fun k t he hu => published_last_start hr hs he hu,
      fun k he hu => published_last_clear hr he hu, published_untouched hr⟩

/-- Two validations of one buffer that end in the wrong order, and a clear while a third is under
way on another. -/
def crossing : List Event :=
  [.start "a" "x", .start "b" "z", .start "a" "y", .finish 2, .clear "b", .finish 0, .finish 1]

theorem last_start_wins_crossing :
    Run crossing ∧ Settled crossing ∧
      answerAt Loader.builtin {} crossing 5 = some .stale ∧
      publishedAt Loader.builtin {} crossing 7 "a" = produced Loader.builtin {} "y" ∧
      publishedAt Loader.builtin {} crossing 7 "b" = [] := by
  have hr : Run crossing := by
    intro k i he
    have hk := lt_length he
    match k with
    | 3 => injection he with he; injection he with he; subst he; exact ⟨by decide, "a", "y", rfl⟩
    | 5 => injection he with he; injection he with he; subst he; exact ⟨by decide, "a", "x", rfl⟩
    | 6 => injection he with he; injection he with he; subst he; exact ⟨by decide, "b", "z", rfl⟩
    | 0 | 1 | 2 | 4 => injection he with he; cases he
  have hs : Settled crossing := by
    intro i b t he
    have hi := lt_length he
    match i with
    | 0 => exact ⟨5, rfl⟩
    | 1 => exact ⟨6, rfl⟩
    | 2 => exact ⟨3, rfl⟩
    | 3 | 4 | 5 | 6 => injection he with he; cases he
  obtain ⟨-, hans, -, -, hend⟩ := last_start_wins Loader.builtin {} crossing hr
  refine ⟨hr, hs, ?_, (hend hs "a").1 2 "y" rfl (by decide), (hend hs "b").2.1 4 rfl (by decide)⟩
  rw [hans 5 0 "a" "x" rfl rfl, if_neg (by decide)]

end ScriptLint.Service
