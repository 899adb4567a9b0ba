import Mathlib.Logic.Relation
import Mathlib.Tactic.Lemma
import SchemaQuery.Recorder

/-!
# Scopes of sinks

A script puts sinks in force for parts of itself and may be aborted within them. Its events go to
the sinks of the scopes that they stand in, and no scope outlives the script (`Script.run_eq`).

To look at the states in between, `Script.Machine` carries out a script step by step. It keeps the
sink in force in a variable, which every scope overwrites and, when it is left, restores from what
it saved. In every state that a run reaches the variable holds the sink of the innermost open scope
(`Script.Machine.Scoped.reaches`), so every scope ends with the sink that was in force before it,
also when it is left by an abort (`Script.run_scoped`).
-/

namespace SchemaQuery

variable {S E : Type}

/-! ### What scripts record -/

namespace Script

/-- Whether a script comes to its end, and is not aborted. -/
def completes : Script S E → Bool
  | .skip | .record _ | .guarded _ => true
  | .seq first second => first.completes && second.completes
  | .within _ body => body.completes
  | .abort => false

/-- The events that a script records, in order, each with the sinks of the scopes that it stands in,
the innermost first. What follows an abort is not recorded. -/
def records : Script S E → List (List S × E)
  | .skip | .abort => []
  | .record e => [([], e)]
  | .seq first second => first.records ++ if first.completes then second.records else []
  | .within sink body => body.records.map fun (sinks, e) => (sinks ++ [sink], e)
  | .guarded body => body.records

/-- What is delivered if `k` is in force outside of the script. -/
def deliveries (k : Option S) (p : Script S E) : List (Delivery S E) :=
  p.records.map fun (sinks, e) => ⟨sinks.head?.or k, e⟩

lemma deliveries_seq (k : Option S) (first second : Script S E) :
    (seq first second).deliveries k
      = first.deliveries k ++ if first.completes then second.deliveries k else [] := by
  simp only [deliveries, records, List.map_append]
  split <;> rfl

/-- Inside of a scope its sink takes the place of the one outside. -/
lemma deliveries_within (k : Option S) (sink : S) (body : Script S E) :
    (within sink body).deliveries k = body.deliveries (some sink) := by
  simp only [deliveries, records, List.map_map]
  refine List.map_congr_left fun (sinks, e) _ => ?_
  cases sinks <;> rfl

/-- A script delivers each event that it records once, and leaves the sink that it found. -/
lemma run_eq (p : Script S E) (k : Option S) :
    p.run () k = ⟨if p.completes then some () else none, (), k, p.deliveries k⟩ := by
  induction p generalizing k with
  | skip | record e | abort => rfl
  | seq first second ihfirst ihsecond =>
    rw [deliveries_seq]
    simp only [run, Recorder.bind, ihfirst, ihsecond, completes]
    by_cases h : first.completes <;> simp [h]
  | within sink body ih =>
    rw [deliveries_within]
    simp only [run, Recorder.within, ih]
    rfl
  | guarded body ih =>
    simp [run, Recorder.bind, Recorder.guarded, Recorder.pure, ih, completes, deliveries, records]

/-! ### Scripts step by step -/

/-- What waits for a script to end. -/
inductive Frame (S E : Type) where
  /-- The second part of a sequence. -/
  | next (second : Script S E)
  /-- The end of the scope of a sink, with what was in force when the scope was opened. -/
  | scope (sink : S) (saved : Option S)
  /-- The end of a part that aborts do not leave. -/
  | guarded

/-- What a machine is about to do: carry out a script, or go on after one that has ended, either
by itself or by an abort. -/
inductive Control (S E : Type) where
  | running (p : Script S E)
  | ended (completed : Bool)

/-- A script that is being carried out, with the innermost frame first. -/
structure Machine (S E : Type) where
  control : Control S E
  frames : List (Frame S E)
  current : Option S
  deliveries : List (Delivery S E)

namespace Machine

/-- The steps of machines. -/
inductive Step : Machine S E → Machine S E → Prop
  | skip {fs k ds} : Step ⟨.running .skip, fs, k, ds⟩ ⟨.ended true, fs, k, ds⟩
  | record {e fs k ds} :
      Step ⟨.running (.record e), fs, k, ds⟩ ⟨.ended true, fs, k, ds ++ [⟨k, e⟩]⟩
  | seq {first second fs k ds} :
      Step ⟨.running (.seq first second), fs, k, ds⟩ ⟨.running first, .next second :: fs, k, ds⟩
  | enter {sink body fs k ds} :
      Step ⟨.running (.within sink body), fs, k, ds⟩
        ⟨.running body, .scope sink k :: fs, some sink, ds⟩
  | abort {fs k ds} : Step ⟨.running .abort, fs, k, ds⟩ ⟨.ended false, fs, k, ds⟩
  | guarded {body fs k ds} :
      Step ⟨.running (.guarded body), fs, k, ds⟩ ⟨.running body, .guarded :: fs, k, ds⟩
  | next {second fs k ds} :
      Step ⟨.ended true, .next second :: fs, k, ds⟩ ⟨.running second, fs, k, ds⟩
  | unwind {second fs k ds} :
      Step ⟨.ended false, .next second :: fs, k, ds⟩ ⟨.ended false, fs, k, ds⟩
  | leave {completed sink saved fs k ds} :
      Step ⟨.ended completed, .scope sink saved :: fs, k, ds⟩ ⟨.ended completed, fs, saved, ds⟩
  | caught {completed fs k ds} :
      Step ⟨.ended completed, .guarded :: fs, k, ds⟩ ⟨.ended true, fs, k, ds⟩

/-- The second machine comes from the first in some steps. -/
abbrev Reaches : Machine S E → Machine S E → Prop := Relation.ReflTransGen Step

/-- The machine that starts on a script with `k` in force. -/
def start (p : Script S E) (k : Option S) : Machine S E := ⟨.running p, [], k, []⟩

variable {m m' : Machine S E} {k : Option S}

lemma step_rightUnique : Relator.RightUnique (Step : Machine S E → Machine S E → Prop) := by
  intro m m' m'' h h'
  cases h <;> cases h' <;> rfl

lemma not_step_ended {completed : Bool} {ds : List (Delivery S E)} :
    ¬Step ⟨.ended completed, [], k, ds⟩ m := by
  intro h
  cases h

/-! ### Machines and scripts -/

/-- A machine carries out a script as a whole, whatever waits for it, and the sink in force is the
same afterwards. -/
lemma reaches_ended (p : Script S E) (fs : List (Frame S E)) (k : Option S)
    (ds : List (Delivery S E)) :
    Reaches ⟨.running p, fs, k, ds⟩ ⟨.ended p.completes, fs, k, ds ++ p.deliveries k⟩ := by
  induction p generalizing fs k ds with
  | skip =>
    rw [show ds ++ Script.skip.deliveries k = ds from List.append_nil ds]
    exact .single .skip
  | record e => exact .single .record
  | seq first second ihfirst ihsecond =>
    have hfirst := (ihfirst (.next second :: fs) k ds).head .seq
    rw [Script.deliveries_seq, Script.completes]
    cases hcompletes : first.completes with
    | true =>
      rw [hcompletes] at hfirst
      have hsecond := (ihsecond fs k (ds ++ first.deliveries k)).head .next
      simpa using hfirst.trans hsecond
    | false =>
      rw [hcompletes] at hfirst
      simpa using hfirst.tail .unwind
  | within sink body ih =>
    rw [Script.deliveries_within]
    exact ((ih (.scope sink k :: fs) (some sink) ds).head .enter).tail .leave
  | abort =>
    rw [show ds ++ Script.abort.deliveries k = ds from List.append_nil ds]
    exact .single .abort
  | guarded body ih => exact ((ih (.guarded :: fs) k ds).head .guarded).tail .caught

/-! ### The innermost scope -/

/-- The sink of the innermost open scope, or `k` if no scope is open. -/
def innermost (k : Option S) : List (Frame S E) → Option S
  | [] => k
  | .scope sink _ :: _ => some sink
  | .next _ :: fs | .guarded :: fs => innermost k fs

/-- Every open scope has saved the sink of the scope around it. -/
def Saved (k : Option S) : List (Frame S E) → Prop
  | [] => True
  | .scope _ saved :: fs => saved = innermost k fs ∧ Saved k fs
  | .next _ :: fs | .guarded :: fs => Saved k fs

/-- The sink in force is that of the innermost open scope, and will be when scopes are left. -/
structure Scoped (k : Option S) (m : Machine S E) : Prop where
  current : m.current = innermost k m.frames
  saved : Saved k m.frames

lemma start_scoped (p : Script S E) (k : Option S) : (start p k).Scoped k := ⟨rfl, trivial⟩

/-- Every step keeps the scopes in order. -/
lemma Scoped.step (h : m.Scoped k) (hstep : Step m m') : m'.Scoped k := by
  obtain ⟨hcurrent, hsaved⟩ := h
  cases hstep with
  | skip | record | seq | abort | guarded | next | unwind | caught => exact ⟨hcurrent, hsaved⟩
  | enter => exact ⟨rfl, hcurrent, hsaved⟩
  | leave =>
    -- What is restored is what the scope has saved.
    obtain ⟨hscope, hfs⟩ := hsaved
    exact ⟨hscope, hfs⟩

lemma Scoped.reaches (h : m.Scoped k) (hreaches : m.Reaches m') : m'.Scoped k := by
  induction hreaches with
  | refl => exact h
  | tail _ hstep ih => exact ih.step hstep

end Machine

/-! ### Runs -/

/-- The sinks that a script puts in force are scoped if `k` is in force when it starts. -/
structure RunScoped (p : Script S E) (k : Option S) : Prop where
  /-- Each event goes once to the sink of the innermost scope that it stands in. -/
  run : p.run () k = ⟨if p.completes then some () else none, (), k, p.deliveries k⟩
  /-- The machine does the same: it comes to this end from every state that it reaches. -/
  ends : ∀ m, (Machine.start p k).Reaches m →
    m.Reaches ⟨.ended p.completes, [], (p.run () k).current, (p.run () k).deliveries⟩
  /-- An event that is recorded goes to the innermost scope that is open. -/
  recorded : ∀ e fs current ds,
    (Machine.start p k).Reaches ⟨.running (.record e), fs, current, ds⟩ →
      Machine.Step ⟨.running (.record e), fs, current, ds⟩
        ⟨.ended true, fs, current, ds ++ [⟨Machine.innermost k fs, e⟩]⟩
  /-- A scope that is opened is left, by itself or by an abort, with what was in force before. -/
  left : ∀ (sink : S) (body : Script S E) fs current ds,
    Machine.Reaches ⟨.running (.within sink body), fs, current, ds⟩
      ⟨.ended body.completes, fs, current, ds ++ body.deliveries (some sink)⟩
  /-- Whenever the same scopes are open, the same sink is in force. -/
  restored : ∀ m m', (Machine.start p k).Reaches m → (Machine.start p k).Reaches m' →
    m.frames = m'.frames → m.current = m'.current

/-- The sinks that a script puts in force are scoped, whatever is in force when it starts. -/
theorem run_scoped (p : Script S E) (k : Option S) : p.RunScoped k where
  run := p.run_eq k
  ends := by
    intro m hm
    have hend := Machine.reaches_ended p [] k []
    rw [p.run_eq k]
    -- There is only one run, so the state lies on the way to the end, or after it.
    rcases Relation.ReflTransGen.total_of_right_unique Machine.step_rightUnique hm hend with h | h
    · exact h
    · rcases Relation.ReflTransGen.cases_head h with h | ⟨m', hstep, -⟩
      · rw [← h]
        exact .refl
      · exact absurd hstep Machine.not_step_ended
  recorded := by
    intro e fs current ds hm
    have hcurrent := ((Machine.start_scoped p k).reaches hm).current
    rw [← hcurrent]
    exact .record
  left := by
    intro sink body fs current ds
    rw [← deliveries_within current]
    exact Machine.reaches_ended (.within sink body) fs current ds
  restored := by
    intro m m' hm hm' hframes
    have h := ((Machine.start_scoped p k).reaches hm).current
    have h' := ((Machine.start_scoped p k).reaches hm').current
    rw [h, h', hframes]

example : (Script.seq (.guarded (.within "inner" (.seq (.record 1) .abort))) (.record 2)).run ()
    (some "outer") = ⟨some (), (), some "outer", [⟨some "inner", 1⟩, ⟨some "outer", 2⟩]⟩ := rfl

end Script

end SchemaQuery
