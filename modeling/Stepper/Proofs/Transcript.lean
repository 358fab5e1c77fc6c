import Mathlib.Data.List.Infix
import Stepper.Engine.Session
import Stepper.Proofs.Written

/-!
What a trace says of the calls of a run. The transcript of a program is the list of all that it
tells a host which never interferes, and the way in which it ends. A record is the transcript added
up, call by call. What each of its parts is at some moment can be read off the calls before it:
which variables have which values, which functions were entered and not left, how much memory that
is.
-/
namespace Stepper.Execution

open Machine Syntax

/-- What has to be captured of a call at once. -/
def captured : Call → Except Fault Unit
  | .track h room _ v => (h.capture room v).map fun _ => ()
  | .enter h room _ args => (args.mapM (h.export_ room)).map fun _ => ()
  | _ => .ok ()

/-- The host that takes down each call as it is; the latest call comes first. -/
def scribe : Host (List Call) where
  wantsText := false
  reply c cs := match captured c with
    | .ok _ => (.proceed, c :: cs)
    | .error f => (.fault f, cs)

/-- The calls of a program in their order. -/
def calls (p : Program) : List Call := (runToEnd p scribe []).2.reverse

/-- How a program ends under the scribe. -/
def ending (p : Program) : Ending := (runToEnd p scribe []).1

/-- The scribe strikes nothing out. -/
theorem suffix_drive {α : Type} (x : Course α) (cs : List Call) :
    cs <:+ (x.drive scribe cs).2 := by
  induction x generalizing cs with
  | done a w => exact List.suffix_rfl
  | broke i w => exact List.suffix_rfl
  | tell c w next ih =>
    have hreply : cs <:+ (scribe.reply c cs).2 := by
      simp only [scribe]
      cases captured c with
      | ok _ => exact List.suffix_cons ..
      | error f => exact List.suffix_rfl
    exact hreply.trans (ih _ _)

/-- The end of a run whose exception has described itself, or failed to. -/
def described : Outcome (Text × Text) → Ending
  | .done d _ => .uncaught d.1 d.2
  | .broke i _ => .failed i

theorem endingOf_of_some {σ : Type} {p : Program} {k : Host σ} {i : Interrupt} {w : World}
    {x : Course (Text × Text)} (h : details p k.wantsText i w = some x) (u : σ) :
    endingOf p k i w u = (described (x.drive k u).1, (x.drive k u).2) := by
  unfold endingOf
  rw [h]
  rcases hx : x.drive k u with ⟨outcome, v⟩
  simp only [hx]
  cases outcome <;> rfl

theorem endingOf_of_none {σ : Type} {p : Program} {k : Host σ} {i : Interrupt} {w : World}
    (h : details p k.wantsText i w = none) (u : σ) : endingOf p k i w u = (.failed i, u) := by
  unfold endingOf
  rw [h]

section

variable {σ : Type} {p : Program} {k : Host σ} {u v : σ} {w : World}

theorem runToEnd_of_done (h : run p k u = (.done () w, v)) : runToEnd p k u = (.finished, v) := by
  unfold runToEnd
  rw [h]

theorem runToEnd_of_broke {i : Interrupt} (h : run p k u = (.broke i w, v)) :
    runToEnd p k u = endingOf p k i w v := by
  unfold runToEnd
  rw [h]

end

theorem suffix_endingOf (p : Program) (i : Interrupt) (w : World) (cs : List Call) :
    cs <:+ (endingOf p scribe i w cs).2 := by
  cases hd : details p scribe.wantsText i w with
  | none => rw [endingOf_of_none hd]
  | some x =>
    rw [endingOf_of_some hd]
    exact suffix_drive x cs

/-! ### What is seen and what calls add -/

/-- The event that is seen of a call, if it can be captured. -/
def seen? (c : Call) : Option Event := (eventOf c).toOption.join

theorem eventOf_of_captured_error {c : Call} {f : Fault} (h : captured c = .error f) :
    eventOf c = .error f := by
  cases c with
  | track heap room name v =>
    cases hv : heap.capture room v with
    | ok x => simp [captured, hv, Except.map] at h
    | error g =>
      obtain rfl : g = f := by simpa [captured, hv, Except.map] using h
      simp [eventOf, hv, bind, Except.bind]
  | enter heap room name args =>
    cases hv : args.mapM (heap.export_ room) with
    | ok x => simp [captured, hv, Except.map] at h
    | error g =>
      obtain rfl : g = f := by simpa [captured, hv, Except.map] using h
      simp [eventOf, hv, bind, Except.bind]
  | _ => cases h

/-- The recorder hears what the scribe takes down, where all of it can be captured. -/
theorem drive_recorder {α : Type} (x : Course α) (cs : List Call)
    (h : ∀ c ∈ (x.drive scribe cs).2, ∃ e, eventOf c = .ok e) :
    x.drive recorder (cs.filterMap seen?) =
      ((x.drive scribe cs).1, (x.drive scribe cs).2.filterMap seen?) := by
  induction x generalizing cs with
  | done a w => rfl
  | broke i w => rfl
  | tell c w next ih =>
    rw [Course.drive_tell] at h
    rw [Course.drive_tell, Course.drive_tell]
    cases hc : captured c with
    | error f =>
      have hscribe : scribe.reply c cs = (.fault f, cs) := by simp [scribe, hc]
      have hrecorder : recorder.reply c (cs.filterMap seen?) = (.fault f, cs.filterMap seen?) := by
        simp [recorder, eventOf_of_captured_error hc]
      rw [hscribe] at h ⊢
      rw [hrecorder]
      exact ih _ _ h
    | ok =>
      have hscribe : scribe.reply c cs = (.proceed, c :: cs) := by simp [scribe, hc]
      rw [hscribe] at h ⊢
      obtain ⟨e, he⟩ := h c ((suffix_drive _ _).subset (List.mem_cons_self ..))
      have hrecorder : recorder.reply c (cs.filterMap seen?) =
          (.proceed, (c :: cs).filterMap seen?) := by
        cases e <;> simp [recorder, he, seen?, Except.toOption]
      rw [hrecorder]
      exact ih _ _ h

/-- The events that are seen of a program are those of its calls. -/
theorem observe_eq {p : Program} (h : ∀ c ∈ calls p, ∃ e, eventOf c = .ok e) :
    observe p = ((calls p).filterMap seen?, ending p) := by
  have hrun : (∀ c ∈ (run p scribe []).2, ∃ e, eventOf c = .ok e) →
      run p recorder [] = ((run p scribe []).1, (run p scribe []).2.filterMap seen?) :=
    drive_recorder (course p false) []
  have hends : runToEnd p recorder [] = (ending p, (runToEnd p scribe []).2.filterMap seen?) := by
    unfold calls at h
    unfold ending
    rcases hscribe : run p scribe [] with ⟨outcome, cs⟩
    rw [hscribe] at hrun
    cases outcome with
    | done a w =>
      rw [runToEnd_of_done hscribe] at h ⊢
      exact runToEnd_of_done (hrun fun c hc => h c (by simpa using hc))
    | broke i w =>
      rw [runToEnd_of_broke hscribe] at h ⊢
      simp only [List.mem_reverse] at h
      rw [runToEnd_of_broke (hrun fun c hc => h c ((suffix_endingOf p i w cs).subset hc))]
      cases hd : details p false i w with
      | none => rw [endingOf_of_none (k := scribe) hd, endingOf_of_none (k := recorder) hd]
      | some x =>
        rw [endingOf_of_some (k := scribe) hd] at h ⊢
        rw [endingOf_of_some (k := recorder) hd, drive_recorder x cs h]
  unfold observe calls
  rw [hends, List.filterMap_reverse]

end Stepper.Execution

namespace Stepper.OrderedMap

variable {κ α : Type} [DecidableEq κ]

theorem ofList_append_singleton (ps : List (κ × α)) (p : κ × α) :
    ofList (ps ++ [p]) = (ofList ps).set p.1 p.2 := by
  simp [ofList, List.foldl_append]

/-- Keys come in the order in which they were first set. -/
theorem keys_ofList [BEq κ] [LawfulBEq κ] (ps : List (κ × α)) :
    (ofList ps).keys = (ps.map Prod.fst).eraseDups := by
  induction ps using List.reverseRecOn with
  | nil => rfl
  | append_singleton ps p ih =>
    rw [ofList_append_singleton, keys_set, ih, List.map_append, List.eraseDups_append]
    by_cases hp : p.1 ∈ ps.map Prod.fst
    · simp [hp, List.removeAll]
    · simp [hp, List.removeAll, List.eraseDups_cons]

/-- Each key has the value that was set last. -/
theorem get?_ofList (k : κ) (ps : List (κ × α)) :
    (ofList ps).get? k = (ps.reverse.find? (·.1 = k)).map Prod.snd := by
  induction ps using List.reverseRecOn with
  | nil => rfl
  | append_singleton ps p ih =>
    rw [ofList_append_singleton, get?_set, ih]
    by_cases hp : k = p.1
    · simp [hp]
    · simp [hp, Ne.symm hp]

theorem nodup_keys_ofList (ps : List (κ × α)) : (ofList ps).keys.Nodup := by
  induction ps using List.reverseRecOn with
  | nil => exact List.nodup_nil
  | append_singleton ps p ih =>
    rw [ofList_append_singleton, keys_set]
    split
    · exact ih
    · next hp =>
      refine List.nodup_append.mpr ⟨ih, by simp, fun k hk l hl => ?_⟩
      obtain rfl := List.mem_singleton.mp hl
      exact fun hkl => hp (hkl ▸ hk)

theorem get?_eq_none_of_not_mem {k : κ} {d : OrderedMap κ α} (h : k ∉ d.keys) :
    d.get? k = none := by
  induction d with
  | nil => rfl
  | cons p d ih =>
    obtain ⟨l, a⟩ := p
    simp only [keys, List.map_cons, List.mem_cons, not_or] at h
    unfold get?
    rw [if_neg h.1]
    exact ih h.2

/-- A dictionary is its keys in their order, with their values. -/
theorem eq_of_keys_of_get? {d e : OrderedMap κ α} (hnodup : d.keys.Nodup) (hkeys : d.keys = e.keys)
    (hget : ∀ k, d.get? k = e.get? k) : d = e := by
  induction d generalizing e with
  | nil => exact (List.map_eq_nil_iff.mp hkeys.symm).symm
  | cons p d ih =>
    obtain _ | ⟨q, e⟩ := e
    · cases hkeys
    obtain ⟨k, a⟩ := p
    obtain ⟨l, b⟩ := q
    obtain ⟨rfl, hrest⟩ : k = l ∧ keys d = keys e := List.cons.inj hkeys
    obtain ⟨hk, hnodup⟩ : k ∉ keys d ∧ (keys d).Nodup := List.nodup_cons.mp hnodup
    have hab : a = b := by simpa [get?] using hget k
    rw [hab, ih hnodup hrest fun l => ?_]
    by_cases hl : l = k
    · subst hl
      rw [get?_eq_none_of_not_mem hk, get?_eq_none_of_not_mem (hrest ▸ hk)]
    · simpa [get?, hl] using hget l

end Stepper.OrderedMap

namespace Stepper.Engine

open Machine Builtin Execution

/-- The variable that a call captures, with its value. -/
def capture? : Call → Option (Text × Captured)
  | .track h room name v => (h.capture room v).toOption.map fun c => (name, c)
  | _ => none

/-- The function that a call enters. -/
def frame (h : Heap) (room : Nat) (name : Text) (args : List Value) : Frame where
  name := if name.isEmpty then Session.anonymous else name
  arguments := (args.mapM (h.export_ room)).toOption.getD []

/-- The functions that have been entered and not left, after one more call. -/
def nextFrames (frames : List Frame) : Call → List Frame
  | .enter h room name args => frame h room name args :: frames
  | .exit .. => frames.tail
  | _ => frames

/-- What a console call shows. -/
def shown? : Call → Option ConsoleRecord
  | .console kind (.values h room vs) => some ⟨kind, Text.join " " (vs.map (printed h room))⟩
  | .console kind (.text t) => some ⟨kind, t⟩
  | _ => none

/-- The line of a step. -/
def stepLine? : Call → Option Int
  | .step _ line => some line
  | _ => none

/-- Whether the memory in use is measured at a call. -/
def isMeasured : Call → Bool
  | .step _ _ | .enter .. | .exit .. | .memory => true
  | _ => false

def stepCount (past : List Call) : Nat := past.countP fun c => (stepLine? c).isSome

def framesAfter (past : List Call) : List Frame := past.foldl nextFrames []

def variablesAfter (past : List Call) : OrderedMap Text Captured :=
  OrderedMap.ofList (past.filterMap capture?)

def memoryAfter (past : List Call) : Nat :=
  8 * (variablesAfter past).length + 16 * (framesAfter past).length

def lastLine (past : List Call) : Option Int := (past.filterMap stepLine?).getLast?

theorem variablesAfter_snoc (past : List Call) (c : Call) : variablesAfter (past ++ [c]) =
    (capture? c).elim (variablesAfter past) fun p => (variablesAfter past).set p.1 p.2 := by
  unfold variablesAfter
  rw [List.filterMap_append]
  cases hc : capture? c with
  | none => simp [hc]
  | some p =>
    rw [List.filterMap_cons_some hc, List.filterMap_nil, OrderedMap.ofList_append_singleton]
    rfl

theorem framesAfter_snoc (past : List Call) (c : Call) :
    framesAfter (past ++ [c]) = nextFrames (framesAfter past) c := by
  simp [framesAfter, List.foldl_append]

/-! ### The record -/

/-- A record with one more call. -/
def Record.hears (r : Record) (c : Call) : Record :=
  match c with
  | .step id line => r.addStep id line
  | .console kind (.values h room vs) =>
    r.write ⟨kind, Text.join " " (vs.map (printed h room))⟩
  | .console kind (.text t) => r.write ⟨kind, t⟩
  | .track h room name v => (capture? (.track h room name v)).elim r fun p => r.capture p.1 p.2
  | .enter h room name args => r.enter (frame h room name args)
  | .exit .. => r.exit
  | .memory => r.measure

/-- What one call does to a record. -/
structure Record.Adds (r : Record) (c : Call) (r' : Record) : Prop where
  vars : r'.vars = (capture? c).elim r.vars fun p => r.vars.set p.1 p.2
  stack : r'.stack = nextFrames r.stack c
  steps : stepLine? c = none → r'.steps = r.steps
  count : r'.count = r.count + (stepLine? c).isSome.toNat
  lastLine : r'.lastLine = (stepLine? c).or r.lastLine
  console : r'.console = (shown? c).toList ++ r.console
  errors : r'.errors = r.errors
  /-- The memory is measured with the call taken into account. -/
  peakMemory : r'.peakMemory =
    if isMeasured c then max r.peakMemory r'.memoryInUse else r.peakMemory

theorem adds_hears (r : Record) (c : Call) : r.Adds c (r.hears c) := by
  cases c with
  | step id line => exact ⟨rfl, rfl, fun h => (nomatch h), rfl, rfl, rfl, rfl, rfl⟩
  | console kind m =>
    cases m <;> exact ⟨rfl, rfl, fun _ => rfl, rfl, rfl, rfl, rfl, rfl⟩
  | track h room name v =>
    have hheard : r.hears (.track h room name v) =
        (capture? (.track h room name v)).elim r fun p => r.capture p.1 p.2 := rfl
    cases hc : capture? (.track h room name v) with
    | none =>
      rw [hheard, hc]
      exact ⟨by rw [hc]; rfl, rfl, fun _ => rfl, rfl, rfl, rfl, rfl, rfl⟩
    | some p =>
      rw [hheard, hc]
      exact ⟨by rw [hc]; rfl, rfl, fun _ => rfl, rfl, rfl, rfl, rfl, rfl⟩
  | _ => exact ⟨rfl, rfl, fun _ => rfl, rfl, rfl, rfl, rfl, rfl⟩

def Record.after (past : List Call) : Record := past.foldl Record.hears {}

theorem after_snoc (past : List Call) (c : Call) :
    Record.after (past ++ [c]) = (Record.after past).hears c := by
  simp [Record.after, List.foldl_append]

/-- What a record shows of the calls so far, but for what each step showed. -/
structure Record.Shows (r : Record) (past : List Call) : Prop where
  vars : r.vars = variablesAfter past
  stack : r.stack = framesAfter past
  count : r.count = stepCount past
  lastLine : r.lastLine = Engine.lastLine past
  console : r.console.reverse = past.filterMap shown?
  errors : r.errors = []

theorem shows_after (past : List Call) : (Record.after past).Shows past := by
  induction past using List.reverseRecOn with
  | nil => exact ⟨rfl, rfl, rfl, rfl, rfl, rfl⟩
  | append_singleton past c ih =>
    have hc := adds_hears (Record.after past) c
    rw [after_snoc]
    exact {
      vars := by rw [hc.vars, ih.vars, variablesAfter_snoc]
      stack := by rw [hc.stack, ih.stack, framesAfter_snoc]
      count := by
        rw [hc.count, ih.count]
        cases hline : stepLine? c <;> simp [stepCount, hline]
      lastLine := by
        rw [hc.lastLine, ih.lastLine]
        cases hline : stepLine? c <;> simp [Engine.lastLine, hline]
      console := by
        rw [hc.console, List.reverse_append, ih.console]
        cases hshown : shown? c <;> simp [hshown]
      errors := by rw [hc.errors, ih.errors] }

theorem memoryInUse_of_shows {r : Record} {past : List Call} (h : r.Shows past) :
    r.memoryInUse = memoryAfter past := by
  simp only [Record.memoryInUse, Record.variableCost, Record.frameCost, memoryAfter, h.vars,
    h.stack, Nat.mul_comm]

/-- What a step shows: its number, and the variables, functions and memory of that moment. -/
structure StepRecord.Shows (r : StepRecord) (past : List Call) (id line : Int) : Prop where
  number : r.number = stepCount past + 1
  id : r.id = id
  line : r.line = line
  /-- In the order of their first capture. -/
  names : r.vars.keys = ((past.filterMap capture?).map Prod.fst).eraseDups
  /-- As they were captured last. -/
  values : ∀ name, r.vars.get? name =
    ((past.filterMap capture?).reverse.find? (·.1 = name)).map Prod.snd
  stack : r.stack = framesAfter past
  memory : r.memory = 8 * r.vars.length + 16 * r.stack.length

theorem shows_nextStep {r : Record} {past : List Call} (h : r.Shows past) (id line : Int) :
    (r.nextStep id line).Shows past id line where
  number := by rw [← h.count]; rfl
  id := rfl
  line := rfl
  names := by
    change r.vars.keys = _
    rw [h.vars, variablesAfter, OrderedMap.keys_ofList]
  values name := by
    change r.vars.get? name = _
    rw [h.vars, variablesAfter, OrderedMap.get?_ofList]
  stack := h.stack
  memory := by
    change r.memoryInUse = 8 * r.vars.length + 16 * r.stack.length
    simp [Record.memoryInUse, Record.variableCost, Record.frameCost, Nat.mul_comm]

theorem length_steps_after (past : List Call) :
    (Record.after past).steps.length = stepCount past := by
  induction past using List.reverseRecOn with
  | nil => rfl
  | append_singleton past c ih =>
    rw [after_snoc]
    cases hc : stepLine? c with
    | none =>
      rw [(adds_hears _ c).steps hc, ih]
      simp [stepCount, hc]
    | some line =>
      cases c with
      | step id line => simp [Record.hears, ih, stepCount, stepLine?]
      | _ => cases hc

/-- Each step is in its place, and shows the moment at which it came. -/
theorem steps_after {calls past : List Call} {id line : Int} (h : past ++ [.step id line] <+: calls) :
    ∃ r, (Record.after calls).steps.reverse[stepCount past]? = some r ∧ r.Shows past id line := by
  induction calls using List.reverseRecOn with
  | nil => simp at h
  | append_singleton calls c ih =>
    rw [after_snoc]
    rcases List.prefix_concat_iff.mp h with h | h
    · obtain ⟨rfl, hc⟩ := List.append_inj' h rfl
      obtain rfl := List.singleton_inj.mp hc
      refine ⟨_, ?_, shows_nextStep (shows_after past) id line⟩
      have hlength := length_steps_after past
      simp only [Record.hears, Record.steps_addStep, List.reverse_cons]
      rw [← hlength, ← List.length_reverse, List.getElem?_concat_length]
    · obtain ⟨r, hr, hshows⟩ := ih h
      refine ⟨r, ?_, hshows⟩
      cases hc : stepLine? c with
      | none => rw [(adds_hears _ c).steps hc, hr]
      | some _ =>
        cases c with
        | step id' line' =>
          simp only [Record.hears, Record.steps_addStep, List.reverse_cons]
          exact List.getElem?_append_left (List.getElem?_eq_some_iff.mp hr).1 ▸ hr
        | _ => cases hc

/-- The greatest memory in use right after a call at which it is measured. -/
structure IsPeak (calls : List Call) (n : Nat) : Prop where
  le : ∀ past c, past ++ [c] <+: calls → isMeasured c = true → memoryAfter (past ++ [c]) ≤ n
  reached : n = 0 ∨
    ∃ past c, past ++ [c] <+: calls ∧ isMeasured c = true ∧ memoryAfter (past ++ [c]) = n

theorem isPeak_after (calls : List Call) : IsPeak calls (Record.after calls).peakMemory := by
  induction calls using List.reverseRecOn with
  | nil => exact ⟨fun past c h => by simp at h, .inl rfl⟩
  | append_singleton calls c ih =>
    have hmemory := memoryInUse_of_shows (shows_after (calls ++ [c]))
    rw [after_snoc] at hmemory ⊢
    rw [(adds_hears _ c).peakMemory, hmemory]
    generalize (Record.after calls).peakMemory = n at ih
    cases hc : isMeasured c with
    | false =>
      refine ⟨fun past d h hd => ?_, ih.reached.imp_right fun ⟨past, d, h, hd⟩ =>
        ⟨past, d, h.trans (List.prefix_append ..), hd⟩⟩
      rcases List.prefix_concat_iff.mp h with h | h
      · obtain ⟨-, hcd⟩ := List.append_inj' h rfl
        obtain rfl := List.singleton_inj.mp hcd
        simp [hc] at hd
      · exact ih.le past d h hd
    | true =>
      simp only [↓reduceIte]
      refine ⟨fun past d h hd => ?_, ?_⟩
      · rcases List.prefix_concat_iff.mp h with h | h
        · rw [h]
          exact Nat.le_max_right ..
        · exact (ih.le past d h hd).trans (Nat.le_max_left ..)
      · rcases Nat.le_total n (memoryAfter (calls ++ [c])) with hle | hle
        · exact .inr ⟨calls, c, List.prefix_rfl, hc, (Nat.max_eq_right hle).symm⟩
        · rw [Nat.max_eq_left hle]
          exact ih.reached.imp_right fun ⟨past, d, h, hd⟩ =>
            ⟨past, d, h.trans (List.prefix_append ..), hd⟩

/-! ### The trace -/

/-- How a trace tells of the end of a run whose last step was in some line. -/
inductive EndsAs (line : Option Int) : Ending → Status → List ErrorRecord → Prop where
  | finished : EndsAs line .finished .completed []
  | uncaught (name message : Text) :
      EndsAs line (.uncaught name message) .failed [{ name, message, line }]
  | tooDeep : EndsAs line (.failed (.fault .nestingTooDeep)) .failed
      [{ name := "RangeError", message := "Maximum call stack size exceeded", line }]
  | stopped : EndsAs line (.failed .stopped) .stopped []

/-- A trace that is the calls of a run added up. -/
structure Trace.Recounts (t : Trace) (calls : List Call) (ending : Ending) : Prop where
  steps : ∀ past id line, past ++ [.step id line] <+: calls →
    ∃ r, t.steps[stepCount past]? = some r ∧ r.Shows past id line
  stepCount : t.steps.length = stepCount calls
  console : t.console = calls.filterMap shown?
  ends : EndsAs (lastLine calls) ending t.status t.errors
  peakMemory : IsPeak calls t.peakMemory

theorem StepRecord.Shows.unique {r r' : StepRecord} {past : List Call} {id line : Int}
    (h : r.Shows past id line) (h' : r'.Shows past id line) : r = r' := by
  have hnodup : r.vars.keys.Nodup := by
    rw [h.names, ← OrderedMap.keys_ofList]
    exact OrderedMap.nodup_keys_ofList _
  have hvars : r.vars = r'.vars := OrderedMap.eq_of_keys_of_get? hnodup
    (h.names.trans h'.names.symm) fun name => (h.values name).trans (h'.values name).symm
  have hstack : r.stack = r'.stack := h.stack.trans h'.stack.symm
  have hmemory : r.memory = r'.memory := by rw [h.memory, h'.memory, hvars, hstack]
  have hnumber := h.number.trans h'.number.symm
  have hid := h.id.trans h'.id.symm
  have hline := h.line.trans h'.line.symm
  cases r
  cases r'
  congr

theorem IsPeak.unique {calls : List Call} {m n : Nat} (h : IsPeak calls m) (h' : IsPeak calls n) :
    m = n := by
  have hle : ∀ {m n}, IsPeak calls m → IsPeak calls n → m ≤ n := by
    intro m n hm hn
    obtain rfl | ⟨past, c, hpast, hc, rfl⟩ := hm.reached
    · exact Nat.zero_le n
    · exact hn.le past c hpast hc
  exact Nat.le_antisymm (hle h h') (hle h' h)

/-- Every number up to that of the last step is the number of a step. -/
theorem exists_step {calls : List Call} {k : Nat} (hk : k < stepCount calls) :
    ∃ past id line, past ++ [.step id line] <+: calls ∧ stepCount past = k := by
  induction calls using List.reverseRecOn with
  | nil => cases hk
  | append_singleton calls c ih =>
    by_cases hbefore : k < stepCount calls
    · obtain ⟨past, id, line, hpast, hcount⟩ := ih hbefore
      exact ⟨past, id, line, hpast.trans (List.prefix_append ..), hcount⟩
    · cases c with
      | step id line =>
        refine ⟨calls, id, line, List.prefix_rfl, ?_⟩
        simp only [stepCount, List.countP_append, List.countP_singleton, stepLine?] at hk hbefore ⊢
        simp at hk
        omega
      | _ =>
        simp [stepCount, stepLine?] at hk hbefore
        omega

/-- The calls of a run and its end determine the trace. -/
theorem Trace.Recounts.unique {t u : Trace} {calls : List Call} {ending : Ending}
    (ht : t.Recounts calls ending) (hu : u.Recounts calls ending) : t = u := by
  have hsteps : t.steps = u.steps := by
    refine List.ext_getElem? fun k => ?_
    by_cases hk : k < Engine.stepCount calls
    · obtain ⟨past, id, line, hpast, rfl⟩ := exists_step hk
      obtain ⟨r, hr, hshows⟩ := ht.steps past id line hpast
      obtain ⟨r', hr', hshows'⟩ := hu.steps past id line hpast
      rw [hr, hr', hshows.unique hshows']
    · rw [List.getElem?_eq_none (by rw [ht.stepCount]; omega),
        List.getElem?_eq_none (by rw [hu.stepCount]; omega)]
  have hends : t.status = u.status ∧ t.errors = u.errors := by
    have ht := ht.ends
    have hu := hu.ends
    generalize t.status = a, t.errors = x, u.status = b, u.errors = y at ht hu
    cases ht <;> cases hu <;> exact ⟨rfl, rfl⟩
  have hconsole := ht.console.trans hu.console.symm
  have hpeak := ht.peakMemory.unique hu.peakMemory
  cases t
  cases u
  simp_all

/-- Nothing but the errors and the status is added to the record after the last call. -/
theorem recounts_after {calls : List Call} {ending : Ending} {status : Status}
    {errors : List ErrorRecord} (h : EndsAs (lastLine calls) ending status errors) :
    ({ Record.after calls with errors := errors.reverse }.trace status).Recounts calls ending where
  steps _ _ _ hstep := steps_after hstep
  stepCount := by
    change (Record.after calls).steps.reverse.length = _
    rw [List.length_reverse, length_steps_after]
  console := (shows_after calls).console
  ends := by simpa [Record.trace] using h
  peakMemory := isPeak_after calls

end Stepper.Engine
