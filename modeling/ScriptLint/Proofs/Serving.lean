import Mathlib
import ScriptLint.Server.Session

/-!
# A session from its first line to its end

Lines arrive and time passes, and then the input ends. What is written, and when, follows from the
requests and their times alone: a text is published when it has rested, unless another request for
its buffer came before.

* `Serving.serve`: a whole session with the engine of this library.
* `Serving.answersAt`: what a step of a script has to bring about, said without a server.
* `Serving.Tracks`: a session along a script; `Tracks.line`, `Tracks.wait`, `Tracks.drain`: each
  step keeps it and writes what it has to.
* `settled`: what is written last about a buffer is the outcome of the last request for it.
* `serve_answers`: **every session writes exactly that, leaves nothing undecided, and ends with what
  it wrote last being what is published.**
-/

namespace ScriptLint.Serving

/-! ## Scripts -/

/-- A line of input: the bytes of a text, without a line break. -/
structure Line where
  bytes : List UInt8
  text : String
  spells : Text.fromBytes? bytes = some text
  unbroken : 0x0A ∉ bytes

theorem newline_not_mem {c : Char} (h : c ≠ '\n') : (0x0A : UInt8) ∉ String.utf8EncodeChar c := by
  have hbyte {n : ℕ} (hn : n ≠ 10) (hlt : n < 256) : (0x0A : UInt8) ≠ UInt8.ofNat n := by
    intro heq
    have htoNat := congrArg UInt8.toNat heq
    rw [UInt8.toNat_ofNat_of_lt' hlt] at htoNat
    exact hn htoNat.symm
  have hc : c.val.toNat ≠ 10 := fun heq => h (Char.ext (UInt32.toNat_inj.1 heq))
  unfold String.utf8EncodeChar
  dsimp only
  split
  · rw [List.mem_singleton]
    exact hbyte hc (by omega)
  · -- every byte of a longer code is at least 128
    have hlong {n k : ℕ} (hk : 128 ≤ k) (hlt : n + k < 256) :
        (0x0A : UInt8) ≠ UInt8.ofNat (n + k) := hbyte (by omega) hlt
    split
    · simp only [List.mem_cons, List.not_mem_nil, or_false, not_or]
      exact ⟨hlong (by decide) (by omega), hlong (by decide) (by omega)⟩
    · split
      · simp only [List.mem_cons, List.not_mem_nil, or_false, not_or]
        exact ⟨hlong (by decide) (by omega), hlong (by decide) (by omega),
          hlong (by decide) (by omega)⟩
      · simp only [List.mem_cons, List.not_mem_nil, or_false, not_or]
        exact ⟨hlong (by decide) (by omega), hlong (by decide) (by omega),
          hlong (by decide) (by omega), hlong (by decide) (by omega)⟩

/-- Every text without a newline is a line of input. -/
def Line.ofString (s : String) (h : '\n' ∉ s.toList) : Line where
  bytes := s.toList.flatMap String.utf8EncodeChar
  text := s
  spells := by
    have hbytes : (⟨(s.toList.flatMap String.utf8EncodeChar).toArray⟩ : ByteArray) =
        s.toByteArray := by
      apply ByteArray.ext
      rw [← String.utf8Encode_toList, List.utf8Encode, List.data_toByteArray]
    rw [Text.fromBytes?, hbytes, String.fromUTF8?, dif_pos s.isValidUTF8]
    rfl
  unbroken := fun hmem => by
    obtain ⟨c, hc, hbyte⟩ := List.mem_flatMap.1 hmem
    exact newline_not_mem (fun heq => h (heq ▸ hc)) hbyte

/-- Something that happens to a session. -/
inductive Step
  | line (l : Line)
  | wait (ms : ℕ)

/-- What a line asks for, or why it asks for nothing; a blank line is neither. -/
def Line.request (l : Line) : Option (Except Refusal Request) :=
  if Text.trimString l.text = "" then none else some (Request.decode (Text.trimString l.text))

/-- What is written when a line is read. -/
def Line.reply (l : Line) : List Response :=
  match l.request with
  | none => []
  | some (.error reason) => [.invalid reason]
  | some (.ok (.clear b)) => [.publish b []]
  | some (.ok (.validate _ _)) => []

namespace Step

/-- The request that arrives with a step, if one does. -/
def request? : Step → Option Request
  | line l =>
    match l.request with
    | some (.ok r) => some r
    | _ => none
  | wait _ => none

/-- The time that a step takes. -/
def ms : Step → ℕ
  | line _ => 0
  | wait ms => ms

def isWait : Step → Bool
  | line _ => false
  | wait _ => true

/-- A step as far as one buffer is concerned: time that passes, or a request for the buffer. -/
def view (b : String) (e : Step) : ℕ × Bool × Option Request :=
  (e.ms, e.isWait, e.request?.filter fun r => r.buffer = b)

/-- A session goes through a step. -/
def run (s : Session) : Step → Session × List Response
  | line l => s.feed (l.bytes ++ [0x0A])
  | wait ms => s.pass ms

end Step

/-- A session goes through steps; what is written in each of them. -/
def runAll : List Step → Session → Session × List (List Response)
  | [], s => (s, [])
  | e :: es, s =>
    let (s, first) := e.run s
    let (s, others) := runAll es s
    (s, first :: others)

/-- A session that is over: what was written in each step and at the end. -/
structure Transcript where
  outputs : List (List Response)
  closing : List Response
  session : Session

/-- A whole session. The last line may lack its line break; it may also be empty, which is no line
at all. -/
def serve (settings : Settings) (es : List Step) (last : Line) : Transcript :=
  let (s, outputs) := runAll es { server := Server.new (Service.builtin settings) }
  let (s, opening) := s.feed last.bytes
  let (s, closing) := s.close
  ⟨outputs, opening ++ closing, s⟩

/-- All that was written. -/
def Transcript.written (t : Transcript) : List Response :=
  t.outputs.flatten ++ t.closing

/-! ## What a script brings about -/

section Script

variable (settings : Settings) (es : List Step)

/-- The time when the step at `k` begins. -/
def clock (k : ℕ) : ℕ :=
  ((es.take k).map Step.ms).sum

/-- The request that arrives with the step at `i`. -/
def requestAt (i : ℕ) : Option Request :=
  es[i]?.bind Step.request?

/-- When the text that arrives with the step at `i` has rested. -/
def deadline (i : ℕ) : ℕ :=
  clock es i + settings.debounceMs.toNat

/-- Does the time that passes in the step at `k` reach the deadline of the step at `i`? -/
def reaches (i k : ℕ) : Bool :=
  es[k]?.any Step.isWait && deadline settings es i ≤ clock es (k + 1)

/-- The text that arrived with the step at `i` still rests when the step at `k` begins. -/
def Rests (i k : ℕ) : Prop :=
  i < k ∧ ∀ j < k, i < j → reaches settings es i j = false

instance (i k : ℕ) : Decidable (Rests settings es i k) :=
  inferInstanceAs (Decidable (_ ∧ _))

/-- No request for the buffer arrives strictly between two steps. -/
def Undisturbed (b : String) (i k : ℕ) : Prop :=
  ∀ j < k, i < j → (requestAt es j).all (fun r => r.buffer ≠ b) = true

instance (b : String) (i k : ℕ) : Decidable (Undisturbed es b i k) :=
  inferInstanceAs (Decidable (∀ _, _))

/-- What is written when a text is decided that rests until the step at `k`. -/
def verdict (k i : ℕ) : Option Response :=
  match requestAt es i with
  | some (.validate b text) =>
    if Rests settings es i k ∧ Undisturbed es b i k then
      some (.publish b (diagnose Engine.builtin settings text))
    else none
  | _ => none

/-- What is written in the step at `k`: the reply to a line, or the verdicts on the texts that have
rested. Behind the last step, all that still rest are decided. -/
def answersAt (k : ℕ) : List Response :=
  match es[k]? with
  | some (.line l) => l.reply
  | some (.wait _) =>
    ((List.range k).filter (reaches settings es · k)).filterMap (verdict settings es k)
  | none => (List.range k).filterMap (verdict settings es k)

/-- The text that arrived with the step at `i` is decided in the step at `k`, or behind the last. -/
def DecidedAt (i k : ℕ) : Prop :=
  Rests settings es i k ∧ (reaches settings es i k = true ∨ k = es.length)

/-- The last request for the buffer is this one, and arrives with the step at `i`. -/
def LastRequest (b : String) (i : ℕ) (r : Request) : Prop :=
  requestAt es i = some r ∧ r.buffer = b ∧ Undisturbed es b i es.length

/-- What a request leads to in the end. -/
def outcome : Request → List Diagnostic
  | .validate _ text => diagnose Engine.builtin settings text
  | .clear _ => []

end Script

/-- What a response says about a buffer. -/
def about (b : String) : Response → Option (List Diagnostic)
  | .publish b' ds => if b' = b then some ds else none
  | .invalid _ => none

/-- What is said last about a buffer. -/
def lastAbout (b : String) (rs : List Response) : Option (List Diagnostic) :=
  (rs.filterMap (about b)).getLast?

theorem lastAbout_append (b : String) (rs ss : List Response) :
    lastAbout b (rs ++ ss) = (lastAbout b ss).or (lastAbout b rs) := by
  rw [lastAbout, List.filterMap_append, List.getLast?_append]
  rfl

/-! ## Steps of the server -/

/-- The engine of this library, asked for already or not. -/
def Ready (cell : EngineCell) : Prop :=
  cell.loader = Loader.builtin ∧
    (cell.state = .idle ∨ cell.state = .resolved (.ok Engine.builtin))

/-- A service has gone on, with this said about its buffers meanwhile. -/
structure Advances (s s' : Service) (out : List Response) : Prop where
  settings : s'.settings = s.settings
  ready : Ready s'.engine
  published : ∀ b, s'.buffers.published b = (lastAbout b out).getD (s.buffers.published b)

theorem Advances.refl {s : Service} (h : Ready s.engine) : Advances s s [] :=
  ⟨rfl, h, fun _ => rfl⟩

theorem Advances.trans {s s' s'' : Service} {out out' : List Response} (h : Advances s s' out)
    (h' : Advances s' s'' out') : Advances s s'' (out ++ out') := by
  refine ⟨h'.settings.trans h.settings, h'.ready, fun b => ?_⟩
  rw [h'.published, h.published, lastAbout_append]
  cases lastAbout b out' <;> rfl

/-- A list is published about one buffer, and nothing about the others. -/
theorem Advances.of_publish {s s' : Service} {b : String} {ds : List Diagnostic}
    (hsettings : s'.settings = s.settings) (hready : Ready s'.engine)
    (hself : s'.buffers.published b = ds)
    (hother : ∀ b', b' ≠ b → s'.buffers.published b' = s.buffers.published b') :
    Advances s s' [.publish b ds] := by
  refine ⟨hsettings, hready, fun b' => ?_⟩
  by_cases hb : b' = b
  · subst hb
    simp [lastAbout, about, hself]
  · simp [lastAbout, about, Ne.symm hb, hother b' hb]

theorem advances_clear {s : Service} (h : Ready s.engine) (b : String) :
    Advances s (s.perform (.clear b)).2 [.publish b []] := by
  obtain ⟨hloader, hstate⟩ := h
  have hsettle : s.engine.settle = s.engine := by
    unfold EngineCell.settle
    rcases hstate with hstate | hstate <;> rw [hstate]
  refine .of_publish rfl ?_ ?_ ?_
  · show Ready s.engine.settle
    rw [hsettle]
    exact ⟨hloader, hstate⟩
  · show ((s.buffers.clear b).get b).published = []
    rw [Buffers.clear, Table.get_set_self]
  · intro b' hb
    show ((s.buffers.clear b).get b').published = (s.buffers.get b').published
    rw [Buffers.clear, Table.get_set, if_neg hb]

/-- Work that nothing interrupts publishes its result. -/
theorem finish_start (buffers : Buffers) (b : String) (ds : List Diagnostic) :
    ∃ buffers', (buffers.start b).2.finish b (buffers.start b).1 ds = (some ds, buffers') ∧
      buffers'.published b = ds ∧ ∀ b', b' ≠ b → buffers'.published b' = buffers.published b' := by
  simp only [Buffers.start, Buffers.finish, Table.get_set_self, if_true]
  refine ⟨_, rfl, ?_, fun b' hb => ?_⟩
  · rw [Buffers.published, Table.get_set_self]
  · rw [Buffers.published, Table.get_set, if_neg hb, Table.get_set, if_neg hb, Buffers.published]

theorem perform_validate {s : Service} (h : Ready s.engine) (b text : String) :
    ∃ cell, Ready cell ∧ s.perform (.validate b text) =
      Service.complete (.ok Engine.builtin) (.validate b text (s.buffers.start b).1)
        ⟨s.settings, cell, (s.buffers.start b).2⟩ := by
  obtain ⟨settings, ⟨loader, state, loads⟩, buffers⟩ := s
  obtain ⟨rfl, hstate⟩ : loader = Loader.builtin ∧ _ := h
  rcases hstate with hstate | hstate
  all_goals
    dsimp only at hstate
    subst hstate
    exact ⟨⟨Loader.builtin, .resolved (.ok Engine.builtin), _⟩, ⟨rfl, .inr rfl⟩, rfl⟩

/-- A validation that nothing interrupts is never stale. -/
theorem advances_validate {s : Service} (h : Ready s.engine) (b text : String) :
    ∃ s', s.perform (.validate b text) =
        (.diagnostics (diagnose Engine.builtin s.settings text), s') ∧
      Advances s s' [.publish b (diagnose Engine.builtin s.settings text)] := by
  obtain ⟨cell, hcell, hperform⟩ := perform_validate h b text
  obtain ⟨buffers, hfinish, hself, hother⟩ :=
    finish_start s.buffers b (diagnose Engine.builtin s.settings text)
  refine ⟨⟨s.settings, cell, buffers⟩, ?_, .of_publish rfl hcell hself hother⟩
  rw [hperform]
  simp only [Service.complete, Service.diagnosticsWith, hfinish]
  rfl

/-- A text that is decided is published if its ticket is the latest of its buffer. -/
def decision (s : Server) (p : Pending) : Option Response :=
  if s.isLatest p.buffer p.ticket then
    some (.publish p.buffer (diagnose Engine.builtin s.service.settings p.text))
  else none

theorem fire_spec {s : Server} (h : Ready s.service.engine) (p : Pending) :
    ∃ service, s.fire p = ({ s with service := service }, (decision s p).toList) ∧
      Advances s.service service (decision s p).toList := by
  unfold Server.fire decision
  split
  · obtain ⟨service, hperform, hadvances⟩ := advances_validate h p.buffer p.text
    exact ⟨service, by rw [hperform]; rfl, hadvances⟩
  · exact ⟨s.service, rfl, .refl h⟩

theorem fireAll_spec (ps : List Pending) {s : Server} (h : Ready s.service.engine) :
    ∃ service, Server.fireAll ps s =
        ({ s with service := service }, ps.filterMap (decision s)) ∧
      Advances s.service service (ps.filterMap (decision s)) := by
  induction ps generalizing s with
  | nil => exact ⟨s.service, rfl, .refl h⟩
  | cons p ps ih =>
    obtain ⟨first, hfirst, hadvances⟩ := fire_spec h p
    obtain ⟨service, hothers, hadvances'⟩ :=
      ih (s := { s with service := first }) hadvances.ready
    -- tickets and settings are as before, so the others are decided as if they came first
    have hsame : decision { s with service := first } = decision s := by
      funext q
      simp only [decision, hadvances.settings]
      rfl
    rw [hsame] at hothers hadvances'
    have hsplit : (p :: ps).filterMap (decision s) =
        (decision s p).toList ++ ps.filterMap (decision s) := by
      rw [List.filterMap_cons]
      cases decision s p <;> rfl
    refine ⟨service, ?_, ?_⟩
    · rw [Server.fireAll, hfirst]
      simp only [hothers, hsplit]
    · rw [hsplit]
      exact hadvances.trans hadvances'

/-! ## Lines of bytes -/

theorem splitLines_of_not_mem {bytes : List UInt8} (h : 0x0A ∉ bytes) :
    Session.splitLines bytes = ([], bytes) := by
  induction bytes with
  | nil => rfl
  | cons c bytes ih =>
    obtain ⟨hc, hbytes⟩ := not_or.1 (List.mem_cons.not.1 h)
    have hsplit := ih hbytes
    rw [Session.splitLines] at hsplit ⊢
    rw [List.foldr_cons, hsplit]
    simp [Ne.symm hc]

theorem splitLines_break {bytes : List UInt8} (h : 0x0A ∉ bytes) :
    Session.splitLines (bytes ++ [0x0A]) = ([bytes], []) := by
  induction bytes with
  | nil => rfl
  | cons c bytes ih =>
    obtain ⟨hc, hbytes⟩ := not_or.1 (List.mem_cons.not.1 h)
    have hsplit := ih hbytes
    rw [Session.splitLines] at hsplit ⊢
    rw [List.cons_append, List.foldr_cons, hsplit]
    simp [Ne.symm hc]

/-! ## Times and tickets -/

section Along

variable {settings : Settings} {es : List Step} {e : Step} {b : String} {i j k : ℕ}

theorem clock_succ (he : es[k]? = some e) : clock es (k + 1) = clock es k + e.ms := by
  rw [clock, clock, List.take_add_one, he]
  simp

theorem clock_mono (h : i ≤ j) : clock es i ≤ clock es j := by
  induction h with
  | refl => exact Nat.le_refl _
  | @step j _ ih =>
    refine Nat.le_trans ih ?_
    cases he : es[j]? with
    | none =>
      have hle : es.length ≤ j := List.getElem?_eq_none_iff.1 he
      exact Nat.le_of_eq (by rw [clock, clock, List.take_of_length_le hle,
        List.take_of_length_le (Nat.le_succ_of_le hle)])
    | some e =>
      rw [clock_succ he]
      exact Nat.le_add_right _ _

/-- How many requests for a buffer arrive with the first steps. -/
def asked (es : List Step) (b : String) (k : ℕ) : ℕ :=
  (es.take k).countP fun e => e.request?.any fun r => r.buffer = b

theorem asked_succ (he : es[k]? = some e) :
    asked es b (k + 1) =
      asked es b k + if e.request?.any (fun r => r.buffer = b) then 1 else 0 := by
  rw [asked, asked, List.take_add_one, he, Option.toList_some, List.countP_append,
    List.countP_singleton]

theorem asked_mono (h : i ≤ j) : asked es b i ≤ asked es b j :=
  (List.take_sublist_take_left h).countP_le

theorem requestAt_eq (he : es[k]? = some e) : requestAt es k = e.request? := by
  rw [requestAt, he, Option.bind_some]

theorem undisturbed_self : Undisturbed es b k (k + 1) := by
  intro j hj hkj
  omega

theorem undisturbed_succ (hik : i < k) : Undisturbed es b i (k + 1) ↔
    Undisturbed es b i k ∧ (requestAt es k).all (fun r => r.buffer ≠ b) = true := by
  constructor
  · exact fun h => ⟨fun j hj hij => h j (Nat.lt_succ_of_lt hj) hij, h k (Nat.lt_succ_self k) hik⟩
  · rintro ⟨h, hk⟩ j hj hij
    rcases Nat.eq_or_lt_of_le (Nat.le_of_lt_succ hj) with rfl | hj
    · exact hk
    · exact h j hj hij

/-- A ticket is still the latest if no other request for its buffer came. -/
theorem asked_eq_iff (hik : i < k) (hk : k ≤ es.length) :
    asked es b k = asked es b (i + 1) ↔ Undisturbed es b i k := by
  induction k with
  | zero => exact absurd hik (Nat.not_lt_zero i)
  | succ k ih =>
    rcases Nat.eq_or_lt_of_le (Nat.le_of_lt_succ hik) with rfl | hik
    · exact iff_of_true rfl undisturbed_self
    have he : es[k]? = some es[k] := List.getElem?_eq_getElem (Nat.lt_of_succ_le hk)
    have hmono : asked es b (i + 1) ≤ asked es b k := asked_mono hik
    rw [undisturbed_succ hik, ← ih hik (Nat.le_of_succ_le hk), asked_succ he, requestAt_eq he]
    cases es[k].request? with
    | none => simp
    | some r =>
      by_cases hr : r.buffer = b
      · simp [hr]
        omega
      · simp [hr]

theorem rests_self : Rests settings es k (k + 1) := by
  refine ⟨Nat.lt_succ_self k, fun j hj hkj => ?_⟩
  omega

theorem rests_succ (hik : i < k) : Rests settings es i (k + 1) ↔
    Rests settings es i k ∧ reaches settings es i k = false := by
  constructor
  · rintro ⟨-, h⟩
    exact ⟨⟨hik, fun j hj hij => h j (Nat.lt_succ_of_lt hj) hij⟩, h k (Nat.lt_succ_self k) hik⟩
  · rintro ⟨⟨-, h⟩, hk⟩
    refine ⟨Nat.lt_succ_of_lt hik, fun j hj hij => ?_⟩
    rcases Nat.eq_or_lt_of_le (Nat.le_of_lt_succ hj) with rfl | hj
    · exact hk
    · exact h j hj hij

theorem reaches_line {l : Line} (he : es[k]? = some (.line l)) (i : ℕ) :
    reaches settings es i k = false := by
  simp [reaches, he, Step.isWait]

theorem reaches_wait {ms : ℕ} (he : es[k]? = some (.wait ms)) (i : ℕ) :
    reaches settings es i k = decide (deadline settings es i ≤ clock es (k + 1)) := by
  simp [reaches, he, Step.isWait]

end Along

/-! ## Texts that rest -/

section Resting

variable (settings : Settings) (es : List Step)

/-- The text that arrived with the step at `i`, if it still rests when the step at `k` begins. -/
def restingAt (k i : ℕ) : Option Pending :=
  match requestAt es i with
  | some (.validate b text) =>
    if Rests settings es i k then some ⟨b, text, asked es b (i + 1), deadline settings es i⟩
    else none
  | _ => none

/-- The texts that rest when the step at `k` begins, in the order they came. -/
def resting (k : ℕ) : List Pending :=
  (List.range k).filterMap (restingAt settings es k)

end Resting

section Along

variable {settings : Settings} {es : List Step} {e : Step} {b : String} {i j k : ℕ}

theorem deadline_of_restingAt {p : Pending} (h : p ∈ restingAt settings es k i) :
    p.deadline = deadline settings es i := by
  unfold restingAt at h
  split at h
  · split at h
    · cases h
      rfl
    · cases h
  · cases h

/-- Texts rest equally long, so their deadlines come in the order they came. -/
theorem pairwise_resting (settings : Settings) (es : List Step) (k : ℕ) :
    (resting settings es k).Pairwise fun p q => p.deadline ≤ q.deadline := by
  rw [resting, List.pairwise_filterMap]
  refine List.pairwise_lt_range.imp fun {i j} hij p hp q hq => ?_
  rw [deadline_of_restingAt hp, deadline_of_restingAt hq]
  exact Nat.add_le_add_right (clock_mono (Nat.le_of_lt hij)) _

theorem takeWhile_due {ps : List Pending} (h : ps.Pairwise fun p q => p.deadline ≤ q.deadline)
    (now : ℕ) :
    (ps.takeWhile fun p => p.deadline ≤ now) = (ps.filter fun p => p.deadline ≤ now) ∧
      ps.drop (ps.takeWhile fun p => p.deadline ≤ now).length =
        ps.filter fun p => ¬ p.deadline ≤ now := by
  induction ps with
  | nil => exact ⟨rfl, rfl⟩
  | cons p ps ih =>
    obtain ⟨hp, hps⟩ := List.pairwise_cons.1 h
    by_cases hdue : p.deadline ≤ now
    · obtain ⟨htake, hdrop⟩ := ih hps
      refine ⟨by simp [hdue, htake], ?_⟩
      rw [List.takeWhile_cons_of_pos (by simpa using hdue), List.length_cons, List.drop_succ_cons,
        hdrop, List.filter_cons_of_neg (by simpa using hdue)]
    · -- nothing behind the first that is not due is due
      have hlate : ∀ q ∈ p :: ps, ¬ q.deadline ≤ now := by
        refine List.forall_mem_cons.2 ⟨hdue, fun q hq => ?_⟩
        have hle := hp q hq
        omega
      rw [List.takeWhile_cons_of_neg (by simpa using hdue)]
      refine ⟨(List.filter_eq_nil_iff.2 fun q hq => by simpa using hlate q hq).symm, ?_⟩
      exact (List.filter_eq_self.2 fun q hq => by simpa using hlate q hq).symm

theorem resting_line {l : Line} (he : es[k]? = some (.line l)) :
    resting settings es (k + 1) =
      resting settings es k ++ (restingAt settings es (k + 1) k).toList := by
  have hsame : ∀ i ∈ List.range k, restingAt settings es (k + 1) i = restingAt settings es k i := by
    intro i hi
    have hrests : Rests settings es i (k + 1) ↔ Rests settings es i k := by
      rw [rests_succ (List.mem_range.1 hi), reaches_line he, and_iff_left rfl]
    simp only [restingAt, hrests]
  rw [resting, List.range_succ, List.filterMap_append, List.filterMap_congr hsame, resting]
  congr 1

theorem resting_wait {ms : ℕ} (he : es[k]? = some (.wait ms)) :
    resting settings es (k + 1) =
      (resting settings es k).filter fun p => ¬ p.deadline ≤ clock es (k + 1) := by
  have hnone : restingAt settings es (k + 1) k = none := by
    rw [restingAt, requestAt_eq he]
    rfl
  rw [resting, List.range_succ, List.filterMap_append, List.filterMap_cons_none hnone,
    List.filterMap_nil, List.append_nil, resting, List.filter_filterMap]
  refine List.filterMap_congr fun i hi => ?_
  have hrests : Rests settings es i (k + 1) ↔
      Rests settings es i k ∧ ¬ deadline settings es i ≤ clock es (k + 1) := by
    rw [rests_succ (List.mem_range.1 hi), reaches_wait he, decide_eq_false_iff_not]
  unfold restingAt
  split
  · by_cases hrest : Rests settings es i k
    · by_cases hdue : deadline settings es i ≤ clock es (k + 1) <;>
        simp [hrests, hrest, hdue, Option.filter]
    · simp [hrests, hrest]
  · rfl

/-! ## Sessions along a script -/

/-- A session that has gone through the first `k` steps of a script, with this written. -/
structure Tracks (settings : Settings) (es : List Step) (k : ℕ) (written : List Response)
    (s : Session) : Prop where
  now : s.now = clock es k
  carry : s.carry = []
  writable : s.writable = true
  error : s.error = none
  configured : s.server.service.settings = settings
  ready : Ready s.server.service.engine
  tickets : ∀ b, s.server.tickets.get b = asked es b k
  pending : s.server.pending = resting settings es k
  published : ∀ b, s.server.service.buffers.published b = (lastAbout b written).getD []

variable {written : List Response} {s : Session}

theorem Tracks.init (settings : Settings) (es : List Step) :
    Tracks settings es 0 [] { server := Server.new (Service.builtin settings) } :=
  ⟨rfl, rfl, rfl, rfl, rfl, ⟨rfl, .inl rfl⟩, fun _ => rfl, rfl, fun _ => rfl⟩

theorem Tracks.advance (h : Tracks settings es k written s) {service : Service}
    {out : List Response} (hadvances : Advances s.server.service service out) (b : String) :
    service.buffers.published b = (lastAbout b (written ++ out)).getD [] := by
  rw [hadvances.published, h.published, lastAbout_append]
  cases lastAbout b out <;> rfl

/-- The decision on a text that rests is the verdict on it. -/
theorem Tracks.decision_eq (h : Tracks settings es k written s) (hk : k ≤ es.length) (hik : i < k)
    {server : Server} (hservice : server.service = s.server.service)
    (htickets : server.tickets = s.server.tickets) :
    (restingAt settings es k i).bind (decision server) = verdict settings es k i := by
  unfold restingAt verdict
  split
  · next b text _ =>
    have hlatest : server.isLatest b (asked es b (i + 1)) = true ↔ Undisturbed es b i k := by
      rw [Server.isLatest, htickets, h.tickets, decide_eq_true_eq, asked_eq_iff hik hk]
    by_cases hrest : Rests settings es i k
    · by_cases hundisturbed : Undisturbed es b i k
      · simp [hrest, hundisturbed, decision, hlatest, hservice, h.configured]
      · simp [hrest, hundisturbed, decision, hlatest]
    · simp [hrest]
  · rfl

theorem Tracks.verdicts_due (h : Tracks settings es k written s) {ms : ℕ}
    (he : es[k]? = some (.wait ms)) {server : Server} (hservice : server.service = s.server.service)
    (htickets : server.tickets = s.server.tickets) :
    ((resting settings es k).filter fun p => p.deadline ≤ clock es (k + 1)).filterMap
      (decision server) = answersAt settings es k := by
  have hk : k ≤ es.length := Nat.le_of_lt (List.getElem?_eq_some_iff.1 he).1
  rw [resting, List.filter_filterMap, List.filterMap_filterMap, answersAt, he,
    List.filterMap_filter]
  refine List.filterMap_congr fun i hi => ?_
  rw [← h.decision_eq hk (List.mem_range.1 hi) hservice htickets, reaches_wait he]
  cases hp : restingAt settings es k i with
  | none => simp
  | some p =>
    have hdeadline := deadline_of_restingAt hp
    by_cases hreach : deadline settings es i ≤ clock es (k + 1) <;>
      simp [Option.filter, hdeadline, hreach]

/-- **Time passes along a script**: the texts are decided that have rested. -/
theorem Tracks.wait (h : Tracks settings es k written s) {ms : ℕ} (he : es[k]? = some (.wait ms)) :
    ∃ s', s.pass ms = (s', answersAt settings es k) ∧
      Tracks settings es (k + 1) (written ++ answersAt settings es k) s' := by
  have hnow : s.now + ms = clock es (k + 1) := by rw [h.now, clock_succ he]; rfl
  obtain ⟨htake, hdrop⟩ := takeWhile_due (pairwise_resting settings es k) (clock es (k + 1))
  set due := (resting settings es k).filter fun p => p.deadline ≤ clock es (k + 1)
  set server : Server := ⟨s.server.service, s.server.tickets, resting settings es (k + 1)⟩
  have helapse : s.server.elapse (s.now + ms) = Server.fireAll due server := by
    rw [Server.elapse, hnow, h.pending, hdrop, ← resting_wait he, htake]
  have hout : due.filterMap (decision server) = answersAt settings es k :=
    h.verdicts_due he rfl rfl
  obtain ⟨service, hfire, hadvances⟩ := fireAll_spec due (s := server) h.ready
  rw [hout] at hfire hadvances
  refine ⟨{ s with now := s.now + ms, server := { server with service := service } }, ?_, ?_⟩
  · rw [Session.pass]
    simp only [helapse, hfire, Session.deliver, h.writable, if_true]
  · refine ⟨hnow, h.carry, h.writable, h.error, hadvances.settings.trans h.configured,
      hadvances.ready, fun b => ?_, rfl, h.advance hadvances⟩
    show s.server.tickets.get b = asked es b (k + 1)
    rw [h.tickets, asked_succ he]
    rfl

theorem receive_eq (l : Line) (now : ℕ) (s : Server) :
    s.receive now l.text =
      match l.request with
      | none => (s, [])
      | some (.error reason) => (s, [.invalid reason])
      | some (.ok r) => s.handle now r := by
  unfold Server.receive Line.request
  by_cases hblank : Text.trimString l.text = ""
  · simp only [hblank, if_true]
  · simp only [hblank, if_false]
    cases Request.decode (Text.trimString l.text) <;> rfl

/-- The tickets after a request are the requests that were made. -/
theorem get_supersede {server : Server} (h : ∀ b, server.tickets.get b = asked es b k)
    (he : es[k]? = some e) {r : Request} (hr : e.request? = some r) (b : String) :
    (server.supersede r.buffer).2.tickets.get b = asked es b (k + 1) := by
  rw [Server.supersede, asked_succ he, hr]
  dsimp only
  rw [Table.get_set, h, h]
  by_cases hb : b = r.buffer
  · simp [hb]
  · simp [hb, Ne.symm hb]

/-- What a line does to a server along a script. -/
theorem Tracks.receive (h : Tracks settings es k written s) {l : Line}
    (he : es[k]? = some (.line l)) :
    ∃ server, s.server.receive s.now l.text = (server, l.reply) ∧
      Advances s.server.service server.service l.reply ∧
      (∀ b, server.tickets.get b = asked es b (k + 1)) ∧
      server.pending = resting settings es (k + 1) := by
  rw [receive_eq, resting_line he]
  unfold Line.reply
  -- a line without a request changes nothing
  have hidle : (Step.line l).request? = none →
      (∀ b, s.server.tickets.get b = asked es b (k + 1)) ∧
        s.server.pending =
          resting settings es k ++ (restingAt settings es (k + 1) k).toList := by
    intro hnone
    refine ⟨fun b => ?_, ?_⟩
    · rw [h.tickets, asked_succ he, hnone]
      rfl
    · rw [h.pending, restingAt, requestAt_eq he, hnone]
      simp
  cases hrequest : l.request with
  | none => exact ⟨s.server, rfl, .refl h.ready, hidle (by rw [Step.request?, hrequest])⟩
  | some request =>
    cases request with
    | error reason =>
      exact ⟨s.server, rfl, ⟨rfl, h.ready, fun _ => rfl⟩, hidle (by rw [Step.request?, hrequest])⟩
    | ok r =>
      have hstep : (Step.line l).request? = some r := by rw [Step.request?, hrequest]
      have htickets := get_supersede h.tickets he hstep
      cases r with
      | validate b text =>
        refine ⟨_, rfl, .refl h.ready, htickets, ?_⟩
        have hticket : s.server.tickets.get b + 1 = asked es b (k + 1) := by
          rw [h.tickets, asked_succ he, hstep]
          simp [Request.buffer]
        rw [restingAt, requestAt_eq he, hstep]
        simp only [if_pos rests_self, Option.toList_some]
        have hdeadline : s.now + s.server.service.settings.debounceMs.toNat =
            deadline settings es k := by
          rw [h.now, h.configured]
          rfl
        rw [← hticket, ← hdeadline, ← h.pending]
        rfl
      | clear b =>
        refine ⟨_, rfl, advances_clear h.ready b, htickets, ?_⟩
        rw [restingAt, requestAt_eq he, hstep]
        simpa using h.pending

/-- **A line arrives along a script**: it is answered at once, or its text rests. -/
theorem Tracks.line (h : Tracks settings es k written s) {l : Line}
    (he : es[k]? = some (.line l)) :
    ∃ s', s.line l.bytes = (s', answersAt settings es k) ∧
      Tracks settings es (k + 1) (written ++ answersAt settings es k) s' := by
  obtain ⟨server, hreceive, hadvances, htickets, hpending⟩ := h.receive he
  have hanswers : answersAt settings es k = l.reply := by rw [answersAt, he]
  have hstopped : s.stopped = false := by simp [Session.stopped, h.error]
  refine ⟨{ s with server := server }, ?_, ?_⟩
  · rw [Session.line, hstopped, l.spells, hanswers]
    simp only [Bool.false_eq_true, if_false, hreceive, Session.deliver, h.writable, if_true]
  · rw [hanswers]
    refine ⟨?_, h.carry, h.writable, h.error, hadvances.settings.trans h.configured,
      hadvances.ready, htickets, hpending, h.advance hadvances⟩
    show s.now = clock es (k + 1)
    rw [h.now, clock_succ he]
    rfl

theorem Tracks.step (h : Tracks settings es k written s) (he : es[k]? = some e) :
    ∃ s', e.run s = (s', answersAt settings es k) ∧
      Tracks settings es (k + 1) (written ++ answersAt settings es k) s' := by
  cases e with
  | wait ms => exact h.wait he
  | line l =>
    obtain ⟨s', hline, htracks⟩ := h.line he
    refine ⟨s', ?_, htracks⟩
    have hcarry : { s with carry := [] } = s := by rw [← h.carry]
    rw [Step.run, Session.feed, h.carry, List.nil_append, splitLines_break l.unbroken]
    simp only [Session.readAll, hcarry, hline, List.append_nil]

/-- All that the first steps of a script bring about. -/
def writtenBefore (settings : Settings) (es : List Step) (k : ℕ) : List Response :=
  (List.range k).flatMap (answersAt settings es)

theorem writtenBefore_succ (settings : Settings) (es : List Step) (k : ℕ) :
    writtenBefore settings es (k + 1) =
      writtenBefore settings es k ++ answersAt settings es k := by
  simp [writtenBefore, List.range_succ]

/-- **A session goes through the steps of a script.** -/
theorem Tracks.runAll {gs : List Step}
    (h : Tracks settings es k (writtenBefore settings es k) s) (hgs : gs <+: es.drop k) :
    ∃ s', Serving.runAll gs s =
        (s', (List.range' k gs.length).map (answersAt settings es)) ∧
      Tracks settings es (k + gs.length) (writtenBefore settings es (k + gs.length)) s' := by
  induction gs generalizing k s with
  | nil => exact ⟨s, rfl, h⟩
  | cons e gs ih =>
    obtain ⟨rest, hrest⟩ := hgs
    have he : es[k]? = some e := by rw [← List.head?_drop, ← hrest]; rfl
    have hgs' : gs <+: es.drop (k + 1) := by
      rw [← List.tail_drop, ← hrest]
      exact ⟨rest, rfl⟩
    obtain ⟨s', hrun, htracks⟩ := h.step he
    rw [← writtenBefore_succ] at htracks
    obtain ⟨s'', hothers, htracks'⟩ := ih htracks hgs'
    refine ⟨s'', ?_, ?_⟩
    · rw [Serving.runAll, hrun]
      simp only [hothers, List.length_cons, List.range'_succ, List.map_cons]
    · rwa [List.length_cons, Nat.add_comm gs.length, ← Nat.add_assoc]

/-- **Behind the last step, all texts are decided that still rest.** -/
theorem Tracks.drain (h : Tracks settings es es.length written s) :
    ∃ service, s.server.drain =
        (⟨service, s.server.tickets, []⟩, answersAt settings es es.length) ∧
      Advances s.server.service service (answersAt settings es es.length) := by
  obtain ⟨service, hfire, hadvances⟩ := fireAll_spec s.server.pending
    (s := ⟨s.server.service, s.server.tickets, []⟩) h.ready
  have hout : s.server.pending.filterMap (decision ⟨s.server.service, s.server.tickets, []⟩) =
      answersAt settings es es.length := by
    have hend : es[es.length]? = none := List.getElem?_eq_none_iff.2 (Nat.le_refl _)
    rw [h.pending, resting, List.filterMap_filterMap, answersAt, hend]
    exact List.filterMap_congr fun i hi =>
      h.decision_eq (Nat.le_refl _) (List.mem_range.1 hi) rfl rfl
  rw [hout] at hfire hadvances
  exact ⟨service, hfire, hadvances⟩

/-- The end of the input ends its last line. -/
theorem Tracks.endInput (h : Tracks settings es k written s) (l : Line) :
    { s with carry := l.bytes }.endInput = s.line l.bytes := by
  have hcarry : { s with carry := [] } = s := by rw [← h.carry]
  by_cases hbytes : l.bytes = []
  · -- nothing is read, and a line without bytes is blank
    have htext : l.text = "" := by
      have hspells := l.spells
      rw [hbytes] at hspells
      exact (Option.some.inj hspells).symm
    have hstopped : s.stopped = false := by simp [Session.stopped, h.error]
    have hblank : s.server.receive s.now l.text = (s.server, []) := by
      rw [htext]
      rfl
    have hline : s.line l.bytes = (s, []) := by
      rw [Session.line, hstopped, l.spells]
      simp only [Bool.false_eq_true, if_false, hblank, Session.deliver, if_pos h.writable]
    rw [hline, Session.endInput, hbytes]
    simp only [if_true, hcarry]
  · rw [Session.endInput]
    simp only [hbytes, if_false, hcarry]

/-- **What a session writes is what its script brings about.** -/
theorem serve_eq (settings : Settings) (steps : List Step) (last : Line) (es : List Step)
    (hes : es = steps ++ [.line last]) :
    ∃ s, serve settings steps last =
        ⟨(List.range steps.length).map (answersAt settings es),
          answersAt settings es steps.length ++ answersAt settings es es.length, s⟩ ∧
      s.server.pending = [] ∧ s.error = none ∧
      ∀ b, s.server.service.buffers.published b =
        (lastAbout b (writtenBefore settings es (es.length + 1))).getD [] := by
  have hbegins : steps <+: es.drop 0 := ⟨[.line last], by rw [hes]; rfl⟩
  obtain ⟨s₁, hrun, h₁⟩ := (Tracks.init settings es).runAll hbegins
  rw [Nat.zero_add] at h₁
  have he : es[steps.length]? = some (.line last) := by
    rw [hes, List.getElem?_concat_length]
  have hlength : es.length = steps.length + 1 := by rw [hes]; simp
  obtain ⟨s₂, hline, h₂⟩ := h₁.line he
  rw [← writtenBefore_succ, ← hlength] at h₂
  obtain ⟨service, hdrain, hadvances⟩ := h₂.drain
  refine ⟨{ s₂ with server := ⟨service, s₂.server.tickets, []⟩ }, ?_, rfl, h₂.error, fun b => ?_⟩
  · have hfeed : s₁.feed last.bytes = ({ s₁ with carry := last.bytes }, []) := by
      rw [Session.feed, h₁.carry, List.nil_append, splitLines_of_not_mem last.unbroken]
      rfl
    rw [serve, hrun]
    simp only [hfeed, Session.close, h₁.endInput, hline, hdrain, Session.deliver, h₂.writable,
      if_true, List.nil_append, List.range_eq_range']
  · rw [writtenBefore_succ]
    exact h₂.advance hadvances b

/-! ## What is said about one buffer -/

/-- The request for the buffer that arrives with the step at `i`. -/
def requestFor (es : List Step) (b : String) (i : ℕ) : Option Request :=
  (requestAt es i).filter fun r => r.buffer = b

theorem about_reply (l : Line) (b : String) :
    l.reply.filterMap (about b) =
      match (Step.line l).request?.filter (fun r => r.buffer = b) with
      | some (.clear _) => [[]]
      | _ => [] := by
  unfold Line.reply Step.request?
  dsimp only
  rcases l.request with _ | (reason | r)
  · rfl
  · rfl
  · cases r with
    | validate b' text => by_cases hb : b' = b <;> simp [Option.filter, Request.buffer, hb]
    | clear b' => by_cases hb : b' = b <;> simp [Option.filter, Request.buffer, about, hb]

theorem about_verdict (settings : Settings) (es : List Step) (b : String) (k i : ℕ) :
    (verdict settings es k i).bind (about b) =
      match requestFor es b i with
      | some (.validate _ text) =>
        if Rests settings es i k ∧ Undisturbed es b i k then
          some (diagnose Engine.builtin settings text)
        else none
      | _ => none := by
  unfold verdict requestFor
  rcases requestAt es i with _ | r
  · rfl
  · cases r with
    | clear b' => by_cases hb : b' = b <;> simp [Option.filter, Request.buffer, hb]
    | validate b' text =>
      by_cases hb : b' = b
      · subst hb
        by_cases hverdict : Rests settings es i k ∧ Undisturbed es b' i k <;>
          simp [Option.filter, Request.buffer, about, hverdict]
      · by_cases hverdict : Rests settings es i k ∧ Undisturbed es b' i k <;>
          simp [Option.filter, Request.buffer, about, hverdict, hb]

theorem undisturbed_iff : Undisturbed es b i k ↔ ∀ j < k, i < j → requestFor es b j = none := by
  refine forall_congr' fun j => imp_congr_right fun _ => imp_congr_right fun _ => ?_
  unfold requestFor
  cases requestAt es j with
  | none => simp
  | some r => by_cases hr : r.buffer = b <;> simp [Option.filter, hr]

theorem filterMap_range_single {f : ℕ → Option (List Diagnostic)} (hik : i < k)
    (hother : ∀ j < k, j ≠ i → f j = none) : (List.range k).filterMap f = (f i).toList := by
  induction k with
  | zero => exact absurd hik (Nat.not_lt_zero i)
  | succ k ih =>
    rw [List.range_succ, List.filterMap_append]
    rcases Nat.eq_or_lt_of_le (Nat.le_of_lt_succ hik) with rfl | hik
    · have hnone : (List.range i).filterMap f = [] := by
        rw [List.filterMap_eq_nil_iff]
        intro j hj
        have hj' := List.mem_range.1 hj
        exact hother j (Nat.lt_succ_of_lt hj') (Nat.ne_of_lt hj')
      rw [hnone, List.nil_append]
      cases hf : f i <;> simp [hf]
    · rw [ih hik fun j hj => hother j (Nat.lt_succ_of_lt hj),
        List.filterMap_cons_none (hother k (Nat.lt_succ_self k) (Nat.ne_of_gt hik))]
      simp

/-- What a text is published with if it rests to the end, if it is a text. -/
def rested (settings : Settings) : Request → Option (List Diagnostic)
  | .validate _ text => some (diagnose Engine.builtin settings text)
  | .clear _ => none

variable {r : Request}

/-- Of the texts of a buffer that rest, only that of the last request can be published. -/
theorem lastAbout_verdicts (hlast : LastRequest es b i r) (hik : i < k) (hk : k ≤ es.length)
    (due : ℕ → Bool) :
    lastAbout b (((List.range k).filter due).filterMap (verdict settings es k)) =
      if due i = true ∧ Rests settings es i k then rested settings r else none := by
  obtain ⟨hr, hb, hundisturbed⟩ := hlast
  have hfor : requestFor es b i = some r := by simp [requestFor, hr, Option.filter, hb]
  have hnext := undisturbed_iff.1 hundisturbed
  rw [lastAbout, List.filterMap_filterMap, List.filterMap_filter,
    filterMap_range_single hik fun j hj hji => ?_]
  · have hself : Undisturbed es b i k :=
      undisturbed_iff.2 fun j hj => hnext j (Nat.lt_of_lt_of_le hj hk)
    rw [about_verdict, hfor]
    by_cases hdue : due i = true
    · by_cases hrests : Rests settings es i k
      · cases r <;> simp [hdue, hrests, hself, rested]
      · cases r <;> simp [hrests]
    · simp [hdue]
  · -- an earlier text is disturbed by the last request, and there is no later one
    have hnone : (verdict settings es k j).bind (about b) = none := by
      rw [about_verdict]
      rcases Nat.lt_or_gt_of_ne hji with hlt | hgt
      · have hdisturbed : ¬ Undisturbed es b j k := by
          intro h
          rw [undisturbed_iff.1 h i hik hlt] at hfor
          cases hfor
        split
        · rw [if_neg fun h => hdisturbed h.2]
        · rfl
      · rw [hnext j (Nat.lt_of_lt_of_le hj hk) hgt]
    rw [hnone, ite_self]

theorem LastRequest.lt_length (h : LastRequest es b i r) : i < es.length := by
  by_contra hle
  have hnone : es[i]? = none := List.getElem?_eq_none_iff.2 (Nat.le_of_not_lt hle)
  have hr := h.1
  rw [requestAt, hnone] at hr
  cases hr

/-- A line that comes after the last request for a buffer says nothing about it. -/
theorem lastAbout_line (hlast : LastRequest es b i r) (hik : i < k) {l : Line}
    (he : es[k]? = some (.line l)) : lastAbout b (answersAt settings es k) = none := by
  have hk : k < es.length := (List.getElem?_eq_some_iff.1 he).1
  have hnone := undisturbed_iff.1 hlast.2.2 k hk hik
  rw [requestFor, requestAt_eq he] at hnone
  rw [answersAt, he]
  dsimp only
  rw [lastAbout, about_reply, hnone]
  rfl

/-- A clear is answered when it is read. -/
theorem lastAbout_clear (he : requestAt es i = some (.clear b)) :
    lastAbout b (answersAt settings es i) = some [] := by
  unfold requestAt at he
  obtain ⟨e, he, hr⟩ := Option.bind_eq_some_iff.1 he
  cases e with
  | wait ms => cases hr
  | line l =>
    rw [answersAt, he]
    dsimp only
    rw [lastAbout, about_reply, hr]
    simp [Option.filter, Request.buffer]

/-- **What is said last about a buffer is the outcome of the last request for it**, as soon as that
one does not rest any longer. -/
theorem settled (hlast : LastRequest es b i r) (hik : i < k) (hk : k ≤ es.length)
    (hdone : rested settings r = none ∨ ¬ Rests settings es i k) :
    lastAbout b (writtenBefore settings es k) = some (outcome settings r) := by
  induction k with
  | zero => exact absurd hik (Nat.not_lt_zero i)
  | succ k ih =>
    rw [writtenBefore_succ, lastAbout_append]
    rcases Nat.eq_or_lt_of_le (Nat.le_of_lt_succ hik) with rfl | hik
    · have hclear := hdone.resolve_right (not_not.2 rests_self)
      obtain ⟨hr, rfl, -⟩ := hlast
      cases r with
      | validate b' text => cases hclear
      | clear b' =>
        rw [Request.buffer, lastAbout_clear hr]
        rfl
    · have he : es[k]? = some es[k] := List.getElem?_eq_getElem (Nat.lt_of_succ_le hk)
      have hbefore := ih hik (Nat.le_of_succ_le hk)
      rw [rests_succ hik] at hdone
      cases hstep : es[k] with
      | line l =>
        rw [hstep] at he
        rw [reaches_line he, and_iff_left rfl] at hdone
        rw [lastAbout_line hlast hik he, hbefore hdone]
        rfl
      | wait ms =>
        rw [hstep] at he
        rw [answersAt, he]
        dsimp only
        rw [lastAbout_verdicts hlast hik (Nat.le_of_succ_le hk)]
        cases hrested : rested settings r with
        | none => rw [hbefore (.inl hrested), ite_self]; rfl
        | some ds =>
          by_cases hrests : Rests settings es i k
          · have hreach : reaches settings es i k = true := by
              simpa [hrested, hrests] using hdone
            rw [if_pos ⟨hreach, hrests⟩]
            cases r with
            | validate b' text => exact hrested.symm
            | clear b' => cases hrested
          · rw [if_neg fun h => hrests h.2, hbefore (.inr hrests)]
            rfl

theorem lastAbout_written (hlast : LastRequest es b i r) :
    lastAbout b (writtenBefore settings es (es.length + 1)) = some (outcome settings r) := by
  have hend : es[es.length]? = none := List.getElem?_eq_none_iff.2 (Nat.le_refl _)
  have hall : List.range es.length = (List.range es.length).filter fun _ => true := by simp
  have hsettled : (rested settings r = none ∨ ¬ Rests settings es i es.length) →
      lastAbout b (writtenBefore settings es es.length) = some (outcome settings r) :=
    settled hlast hlast.lt_length (Nat.le_refl _)
  rw [writtenBefore_succ, lastAbout_append, answersAt, hend]
  dsimp only
  rw [hall, lastAbout_verdicts hlast hlast.lt_length (Nat.le_refl _)]
  by_cases hrests : Rests settings es i es.length
  · rw [if_pos ⟨rfl, hrests⟩]
    cases r with
    | validate b' text => rfl
    | clear b' => rw [hsettled (.inl rfl)]; rfl
  · rw [if_neg fun h => hrests h.2, hsettled (.inr hrests)]
    rfl

/-- **Every text is decided exactly once.** -/
theorem existsUnique_decidedAt (hi : i < es.length) : ∃! k, DecidedAt settings es i k := by
  have hunique : ∀ k k', DecidedAt settings es i k → DecidedAt settings es i k' → ¬ k < k' := by
    rintro k k' ⟨hk, hreach⟩ ⟨⟨-, hk'⟩, hend⟩ hlt
    rcases hreach with hreach | rfl
    · rw [hk' k hlt hk.1] at hreach
      cases hreach
    · -- no step is behind the last
      rcases hend with hend | rfl
      · have hnone : es[k']? = none := List.getElem?_eq_none_iff.2 (Nat.le_of_lt hlt)
        rw [reaches, hnone] at hend
        cases hend
      · exact Nat.lt_irrefl _ hlt
  have hexists : ∃ k, DecidedAt settings es i k := by
    by_cases hreach : ∃ k, i < k ∧ reaches settings es i k = true
    · -- the first step that reaches the deadline
      obtain ⟨hik, hfirst⟩ := Nat.find_spec hreach
      refine ⟨Nat.find hreach, ⟨hik, fun j hj hij => ?_⟩, .inl hfirst⟩
      by_contra hne
      exact Nat.find_min hreach hj ⟨hij, by simpa using hne⟩
    · refine ⟨es.length, ⟨hi, fun j _ hij => ?_⟩, .inr rfl⟩
      by_contra hne
      exact hreach ⟨j, hij, by simpa using hne⟩
  obtain ⟨k, hk⟩ := hexists
  refine ⟨k, hk, fun k' hk' => ?_⟩
  have h := hunique k k' hk hk'
  have h' := hunique k' k hk' hk
  omega

/-! ## Other buffers do not matter -/

section View

variable {es' : List Step} (h : es.map (Step.view b) = es'.map (Step.view b))

include h

theorem getElem?_view (k : ℕ) : es[k]?.map (Step.view b) = es'[k]?.map (Step.view b) := by
  rw [← List.getElem?_map, ← List.getElem?_map, h]

theorem clock_view (k : ℕ) : clock es k = clock es' k := by
  have hms : ∀ fs : List Step, fs.map Step.ms = (fs.map (Step.view b)).map Prod.fst := by
    intro fs
    rw [List.map_map]
    rfl
  rw [clock, clock, List.map_take, List.map_take, hms, hms, h]

theorem requestFor_view (k : ℕ) : requestFor es b k = requestFor es' b k := by
  have hview : ∀ fs : List Step,
      requestFor fs b k = (fs[k]?.map (Step.view b)).bind fun v => v.2.2 := by
    intro fs
    rw [requestFor, requestAt]
    cases fs[k]? <;> rfl
  rw [hview, hview, getElem?_view h]

theorem reaches_view (settings : Settings) (i k : ℕ) :
    reaches settings es i k = reaches settings es' i k := by
  have hwait : ∀ fs : List Step,
      fs[k]?.any Step.isWait = (fs[k]?.map (Step.view b)).any fun v => v.2.1 := by
    intro fs
    cases fs[k]? <;> rfl
  rw [reaches, reaches, hwait, hwait, getElem?_view h, deadline, deadline, clock_view h,
    clock_view h]

theorem about_answersAt_view (settings : Settings) (k : ℕ) :
    (answersAt settings es k).filterMap (about b) =
      (answersAt settings es' k).filterMap (about b) := by
  have hrests : ∀ i, Rests settings es i k ↔ Rests settings es' i k := by
    intro i
    simp only [Rests, reaches_view h]
  have hundisturbed : ∀ i, Undisturbed es b i k ↔ Undisturbed es' b i k := by
    intro i
    simp only [undisturbed_iff, requestFor_view h]
  have hverdict : ∀ i, (verdict settings es k i).bind (about b) =
      (verdict settings es' k i).bind (about b) := by
    intro i
    simp only [about_verdict, requestFor_view h, hrests, hundisturbed]
  have hview := getElem?_view h k
  unfold answersAt
  cases he : es[k]? with
  | none =>
    cases he' : es'[k]? with
    | none => simp only [List.filterMap_filterMap, hverdict]
    | some e' => simp [he, he'] at hview
  | some e =>
    cases he' : es'[k]? with
    | none => simp [he, he'] at hview
    | some e' =>
      rw [he, he', Option.map_some, Option.map_some, Option.some.injEq] at hview
      have hwait : e.isWait = e'.isWait := congrArg (fun v => v.2.1) hview
      have hrequest : e.request?.filter (fun r => r.buffer = b) =
          e'.request?.filter (fun r => r.buffer = b) := congrArg (fun v => v.2.2) hview
      cases e with
      | line l =>
        cases e' with
        | line l' => simp only [about_reply, hrequest]
        | wait ms' => cases hwait
      | wait ms =>
        cases e' with
        | line l' => cases hwait
        | wait ms' => simp only [List.filterMap_filterMap, hverdict, reaches_view h]

end View

end Along

/-- **A session publishes each outcome once, in time, and none that is stale.** For every script:

* each line is replied to when it is read, and each text is decided once, when it has rested or at
  the end of the input: it is published unless another request for its buffer came before;
* what is written last about a buffer is the outcome of the last request for it, and is what is
  published when the session is over;
* nothing is left to be decided, and nothing went wrong;
* what is written about a buffer does not depend on requests for others. -/
theorem serve_answers (settings : Settings) (steps : List Step) (last : Line) :
    let es := steps ++ [.line last]
    let t := serve settings steps last
    t.outputs = (List.range steps.length).map (answersAt settings es) ∧
    t.closing = answersAt settings es steps.length ++ answersAt settings es es.length ∧
    (∀ i b text, requestAt es i = some (.validate b text) → ∃! k, DecidedAt settings es i k) ∧
    (∀ b i r, LastRequest es b i r →
      lastAbout b t.written = some (outcome settings r) ∧
      t.session.server.service.buffers.published b = outcome settings r) ∧
    t.session.server.pending = [] ∧
    t.session.result = .ok () ∧
    ∀ b steps' last', (steps' ++ [.line last']).map (Step.view b) = es.map (Step.view b) →
      (serve settings steps' last').outputs.map (List.filterMap (about b)) =
          t.outputs.map (List.filterMap (about b)) ∧
        (serve settings steps' last').closing.filterMap (about b) =
          t.closing.filterMap (about b) := by
  intro es t
  obtain ⟨s, hserve, hpending, herror, hpublished⟩ := serve_eq settings steps last es rfl
  have ht : t = ⟨_, _, s⟩ := hserve
  have hlength : es.length = steps.length + 1 := by simp [es]
  have hwritten : t.written = writtenBefore settings es (es.length + 1) := by
    rw [ht, Transcript.written, writtenBefore_succ, hlength, writtenBefore_succ, writtenBefore,
      List.flatMap_def, List.append_assoc]
  refine ⟨by rw [ht], by rw [ht], fun i b text hrequest => ?_, fun b i r hlast => ?_,
    by rw [ht]; exact hpending, by rw [ht, Session.result, herror], fun b steps' last' hview => ?_⟩
  · refine existsUnique_decidedAt ?_
    by_contra hle
    have hnone : es[i]? = none := List.getElem?_eq_none_iff.2 (Nat.le_of_not_lt hle)
    rw [requestAt, hnone] at hrequest
    cases hrequest
  · have hfinal : lastAbout b (writtenBefore settings es (es.length + 1)) =
        some (outcome settings r) := lastAbout_written hlast
    refine ⟨by rw [hwritten, hfinal], ?_⟩
    rw [ht, hpublished, hfinal]
    rfl
  · obtain ⟨s', hserve', -⟩ := serve_eq settings steps' last' _ rfl
    have hlength' : (steps' ++ [Step.line last']).length = es.length := by
      simpa using congrArg List.length hview
    have hsteps : steps'.length = steps.length := by simpa [es] using hlength'
    have habout := about_answersAt_view hview settings
    rw [ht, hserve', hlength', hsteps]
    refine ⟨?_, ?_⟩
    · simp only [List.map_map]
      exact List.map_congr_left fun k _ => habout k
    · simp only [List.filterMap_append, habout]

/-- A text to validate, a buffer to clear, a line that is no request, a blank line, and time for the
text to rest. -/
def sampleSteps : List Step :=
  [.line (.ofString "[\"validate\",\"a\",\"print(x)\"]" (by decide)),
    .line (.ofString "\x7b\"method\":\"clear\",\"buffer\":\"b\"\x7d" (by decide)),
    .line (.ofString "\x7b" (by decide)), .line (.ofString "  " (by decide)), .wait 500]

/-- A text that rests when the input ends. -/
def sampleLast : Line :=
  .ofString "[\"validate\",\"b\",\"let\"]" (by decide)

theorem serve_answers_sample :
    (serve {} sampleSteps sampleLast).outputs =
        [[], [.publish "b" []], [.invalid .malformed], [],
          [.publish "a" [⟨1, 7, "Undefined variable 'x'", .warning⟩]]] ∧
      (serve {} sampleSteps sampleLast).closing =
        [.publish "b" [⟨1, 4, "Unexpected end of input", .error⟩]] ∧
      LastRequest (sampleSteps ++ [Step.line sampleLast]) "b" 5 (.validate "b" "let") ∧
      (serve {} sampleSteps sampleLast).session.server.service.buffers.published "b" =
        [⟨1, 4, "Unexpected end of input", .error⟩] ∧
      (serve {} sampleSteps sampleLast).session.server.pending = [] := by
  have hanswers := serve_answers {} sampleSteps sampleLast
  have hlast : LastRequest (sampleSteps ++ [Step.line sampleLast]) "b" 5 (.validate "b" "let") :=
    ⟨by decide +kernel, rfl, by decide +kernel⟩
  have hfinal := (hanswers.2.2.2.1 "b" 5 _ hlast).2
  refine ⟨hanswers.1.trans ?_, hanswers.2.1.trans ?_, hlast, hfinal.trans ?_,
    hanswers.2.2.2.2.1⟩
  · decide +kernel
  · decide +kernel
  · decide +kernel

end ScriptLint.Serving
