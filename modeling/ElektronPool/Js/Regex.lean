import Mathlib.Data.List.Basic
import Mathlib.Logic.Function.Basic

/-!
# Regular expressions

The matching of ECMA-262: `matcher` calls a continuation wherever an expression can end and backtracks when it fails,
trying the left of two alternatives first and one more iteration before none. `results` are these places in the order
in which they are tried (`matcher_eq`). An iteration that can go one way only, in front of something that cannot begin
where one more iteration could, is worth trying as far as it goes and no shorter (`Runs.flatMap_many`).
-/

namespace Js

/-- The constructs the expressions of the source are made of, without flags. -/
inductive Regex where
  | start
  | finish
  | one (admits : Char → Bool)
  | seq (r s : Regex)
  | alt (r s : Regex)
  | many (r : Regex)
  | group (index : ℕ) (r : Regex)

/-- A `MatchState`: what is behind it, nearest first, what is ahead, and what the groups have captured. -/
structure MatchState where
  read : List Char
  rest : List Char
  captures : ℕ → Option (List Char)

namespace MatchState

def clear (groups : List ℕ) (x : MatchState) : MatchState :=
  { x with captures := fun i => if i ∈ groups then none else x.captures i }

/-- The group that began at `x` ends at `y`. -/
def capture (index : ℕ) (x y : MatchState) : MatchState :=
  { y with captures := Function.update y.captures index (some (x.rest.take (x.rest.length - y.rest.length))) }

@[simp] theorem clear_nil (x : MatchState) : x.clear [] = x := by simp [clear]

end MatchState

namespace Regex

def plus (r : Regex) : Regex := .seq r (.many r)

def groups : Regex → List ℕ
  | start | finish | one _ => []
  | seq r s | alt r s => r.groups ++ s.groups
  | many r => r.groups
  | group index r => index :: r.groups

/-! ## Matching -/

abbrev Continuation := MatchState → Option MatchState

/-- `RepeatMatcher` for a `*`. An iteration has to read something, which bounds their number. -/
def repeatMatcher (m : Continuation → Continuation) (c : Continuation) : ℕ → Continuation
  | 0, x => c x
  | fuel + 1, x =>
    (m (fun y => if y.rest.length < x.rest.length then repeatMatcher m c fuel y else none) x).or (c x)

def matcher : Regex → Continuation → Continuation
  | start, c, x => if x.read = [] then c x else none
  | finish, c, x => if x.rest = [] then c x else none
  | one admits, c, x =>
    match x.rest with
    | a :: rest => if admits a then c { x with read := a :: x.read, rest := rest } else none
    | [] => none
  | seq r s, c, x => r.matcher (s.matcher c) x
  | alt r s, c, x => (r.matcher c x).or (s.matcher c x)
  | many r, c, x => repeatMatcher (fun d y => r.matcher d (y.clear r.groups)) c x.rest.length x
  | group index r, c, x => r.matcher (fun y => c (x.capture index y)) x

/-- `RegExpBuiltinExec` from a place on: the match that begins first. The whole match is group 0. -/
def execFrom (r : Regex) : List Char → List Char → Option MatchState
  | read, [] => (group 0 r).matcher some ⟨read, [], fun _ => none⟩
  | read, a :: rest => ((group 0 r).matcher some ⟨read, a :: rest, fun _ => none⟩).or (execFrom r (a :: read) rest)

def exec (r : Regex) (text : List Char) : Option MatchState := r.execFrom [] text

/-- The iterator of `matchAll`, which goes one character on behind an empty match. -/
def iterate (r : Regex) : ℕ → List Char → List Char → List MatchState
  | 0, _, _ => []
  | fuel + 1, read, rest =>
    match r.execFrom read rest with
    | none => []
    | some y =>
      y ::
        if y.captures 0 = some [] then
          match y.rest with
          | [] => []
          | a :: rest => iterate r fuel (a :: y.read) rest
        else iterate r fuel y.read y.rest

def matchAll (r : Regex) (text : List Char) : List MatchState := r.iterate (text.length + 1) [] text

/-! ## The places where an expression can end -/

def repeated (step : MatchState → List MatchState) : ℕ → MatchState → List MatchState
  | 0, x => [x]
  | fuel + 1, x => ((step x).filter fun y => y.rest.length < x.rest.length).flatMap (repeated step fuel) ++ [x]

def results : Regex → MatchState → List MatchState
  | start, x => if x.read = [] then [x] else []
  | finish, x => if x.rest = [] then [x] else []
  | one admits, x =>
    match x.rest with
    | a :: rest => if admits a then [{ x with read := a :: x.read, rest := rest }] else []
    | [] => []
  | seq r s, x => (r.results x).flatMap s.results
  | alt r s, x => r.results x ++ s.results x
  | many r, x => repeated (fun y => r.results (y.clear r.groups)) x.rest.length x
  | group index r, x => (r.results x).map (x.capture index)

theorem findSome?_flatMap {α β γ : Type*} (f : β → Option γ) (g : α → List β) (l : List α) :
    (l.flatMap g).findSome? f = l.findSome? fun a => (g a).findSome? f := by
  induction l with
  | nil => rfl
  | cons a l ih =>
    rw [List.flatMap_cons, List.findSome?_append, ih, List.findSome?_cons]
    cases (g a).findSome? f <;> rfl

theorem findSome?_filter {α β : Type*} (f : α → Option β) (p : α → Bool) (l : List α) :
    (l.filter p).findSome? f = l.findSome? fun a => if p a then f a else none := by
  induction l with
  | nil => rfl
  | cons a l ih => by_cases keep : p a <;> simp [List.findSome?_cons, keep, ih]

theorem repeatMatcher_eq {m : Continuation → Continuation} {step : MatchState → List MatchState}
    (same : ∀ c x, m c x = (step x).findSome? c) (c : Continuation) (fuel : ℕ) (x : MatchState) :
    repeatMatcher m c fuel x = (repeated step fuel x).findSome? c := by
  induction fuel generalizing x with
  | zero => simp [repeatMatcher, repeated]
  | succ fuel ih =>
    rw [repeatMatcher, same, repeated, List.findSome?_append, findSome?_flatMap, findSome?_filter]
    simp [ih]

/-- **The matcher offers the results to its continuation**, in this order. -/
theorem matcher_eq (r : Regex) (c : Continuation) (x : MatchState) : r.matcher c x = (r.results x).findSome? c := by
  induction r generalizing c x with
  | start => by_cases here : x.read = [] <;> simp [matcher, results, here]
  | finish => by_cases here : x.rest = [] <;> simp [matcher, results, here]
  | one admits =>
    rw [matcher, results]
    split
    · rename_i a rest _
      cases admits a <;> simp
    · rfl
  | seq r s ihr ihs =>
    rw [matcher, results, ihr, findSome?_flatMap]
    exact congrArg (List.findSome? · _) (funext fun y => ihs c y)
  | alt r s ihr ihs => rw [matcher, results, ihr, ihs, List.findSome?_append]
  | many r ih => exact repeatMatcher_eq (fun c y => ih c (y.clear r.groups)) c _ x
  | group index r ih => rw [matcher, results, ih, List.findSome?_map, Function.comp_def]

/-! ## Repetition -/

section
variable {r : Regex} {x y z : MatchState}

theorem repeated_of_le {step : MatchState → List MatchState} {fuel fuel' : ℕ} (x : MatchState)
    (enough : x.rest.length ≤ fuel) (enough' : x.rest.length ≤ fuel') :
    repeated step fuel x = repeated step fuel' x := by
  have none_left : ∀ {x : MatchState} (n : ℕ), x.rest.length ≤ 0 → repeated step n x = [x] := by
    intro x n empty
    cases n with
    | zero => rfl
    | succ n =>
      have nothing : (step x).filter (fun y => y.rest.length < x.rest.length) = [] := by
        rw [List.filter_eq_nil_iff]
        intro y _
        rw [decide_eq_true_eq]
        omega
      rw [repeated, nothing]
      rfl
  induction fuel generalizing x fuel' with
  | zero => rw [none_left 0 enough, none_left fuel' enough]
  | succ fuel ih =>
    cases fuel' with
    | zero => rw [none_left _ enough', none_left _ enough']
    | succ fuel' =>
      rw [repeated, repeated]
      refine congrArg (· ++ [x]) (List.flatMap_congr fun y member => ?_)
      have shorter := of_decide_eq_true (List.mem_filter.mp member).2
      exact ih y (by omega) (by omega)

/-- One more iteration is tried before none. -/
theorem results_many (r : Regex) (x : MatchState) :
    (many r).results x =
      ((r.results (x.clear r.groups)).filter fun y => y.rest.length < x.rest.length).flatMap (many r).results ++ [x] := by
  have enough : (many r).results x = repeated (fun y => r.results (y.clear r.groups)) (x.rest.length + 1) x :=
    repeated_of_le x (Nat.le_refl _) (Nat.le_succ _)
  rw [enough, repeated]
  refine congrArg (· ++ [x]) (List.flatMap_congr fun y member => ?_)
  have shorter := of_decide_eq_true (List.mem_filter.mp member).2
  exact repeated_of_le y (by omega) (Nat.le_refl _)

/-- The expression is repeated, with no choice, as often as it can be. -/
inductive Runs (r : Regex) : MatchState → MatchState → Prop
  | stop {x : MatchState} : r.results (x.clear r.groups) = [] → Runs r x x
  | more {x y z : MatchState} : r.results (x.clear r.groups) = [y] → y.rest.length < x.rest.length → Runs r y z → Runs r x z

theorem runs_one {admits : Char → Bool} (read : List Char) {run after : List Char} (captures : ℕ → Option (List Char))
    (all : ∀ a ∈ run, admits a) (ends : ∀ a ∈ after.head?, ¬admits a) :
    Runs (one admits) ⟨read, run ++ after, captures⟩ ⟨run.reverse ++ read, after, captures⟩ := by
  induction run generalizing read with
  | nil =>
    refine .stop ?_
    cases after with
    | nil => rfl
    | cons a after => simpa [results, groups] using ends a rfl
  | cons a run ih =>
    rw [List.forall_mem_cons] at all
    rw [List.reverse_cons, List.append_assoc]
    refine .more ?_ (Nat.lt_succ_self _) (ih (a :: read) all.2)
    simp [results, groups, all.1]

/-- **Nothing is gained by giving an iteration up** in front of what fails wherever there could be one more. -/
theorem Runs.flatMap_many {β : Type*} {f : MatchState → List β} (runs : Runs r x z)
    (fails : ∀ y, r.results (y.clear r.groups) ≠ [] → f y = []) : ((many r).results x).flatMap f = f z := by
  induction runs with
  | stop ends =>
    rw [results_many, ends]
    simp
  | @more x y z goes shorter _ ih =>
    have kept : [y].filter (fun y => y.rest.length < x.rest.length) = [y] := by simp [shorter]
    have fails_here : f x = [] := fails x (by simp [goes])
    rw [results_many, goes, kept, List.flatMap_singleton, List.flatMap_append, ih, List.flatMap_singleton, fails_here,
      List.append_nil]

/-- A captured repetition, likewise. -/
theorem Runs.results_group_many {s : Regex} (runs : Runs r x z) (index : ℕ)
    (fails : ∀ y : MatchState, r.results (y.clear r.groups) ≠ [] →
      ∀ captures, s.results { y with captures := captures } = []) :
    (seq (group index (many r)) s).results x = s.results (x.capture index z) := by
  rw [results, results, List.flatMap_map]
  exact runs.flatMap_many (f := fun y => s.results (x.capture index y)) fun y goes => fails y goes _

/-- A run of one class is the longest there is, in front of what cannot begin within it. -/
theorem flatMap_plus_one {β : Type*} {admits : Char → Bool} {f : MatchState → List β} (read : List Char)
    {run after : List Char} (captures : ℕ → Option (List Char)) (all : ∀ a ∈ run, admits a)
    (ends : ∀ a ∈ after.head?, ¬admits a) (fails : ∀ y : MatchState, ∀ a ∈ y.rest.head?, admits a → f y = []) :
    ((plus (one admits)).results ⟨read, run ++ after, captures⟩).flatMap f =
      if run = [] then [] else f ⟨run.reverse ++ read, after, captures⟩ := by
  rw [plus, results]
  cases run with
  | nil =>
    have nothing : (one admits).results ⟨read, [] ++ after, captures⟩ = [] := by
      cases after with
      | nil => rfl
      | cons a after => simpa [results] using ends a rfl
    rw [nothing]
    rfl
  | cons a run =>
    rw [List.forall_mem_cons] at all
    have first : (one admits).results ⟨read, (a :: run) ++ after, captures⟩ = [⟨a :: read, run ++ after, captures⟩] := by
      simp [results, all.1]
    rw [first, List.flatMap_singleton, (runs_one (a :: read) captures all.2 ends).flatMap_many, if_neg (List.cons_ne_nil a run),
      List.reverse_cons, List.append_assoc]
    · rfl
    · rintro ⟨behind, _ | ⟨b, ahead⟩, captured⟩ goes
      · exact absurd rfl goes
      · refine fails _ b rfl ?_
        by_contra no
        exact goes (by simp [results, groups, no])

theorem results_group_plus_one {admits : Char → Bool} {s : Regex} (index : ℕ) (read : List Char) {run after : List Char}
    (captures : ℕ → Option (List Char)) (all : ∀ a ∈ run, admits a) (ends : ∀ a ∈ after.head?, ¬admits a)
    (fails : ∀ y : MatchState, ∀ a ∈ y.rest.head?, admits a → s.results y = []) :
    (seq (group index (plus (one admits))) s).results ⟨read, run ++ after, captures⟩ =
      if run = [] then [] else s.results ⟨run.reverse ++ read, after, Function.update captures index (some run)⟩ := by
  have whole : (run ++ after).take ((run ++ after).length - after.length) = run := by
    rw [List.length_append, Nat.add_sub_cancel_right, List.take_left]
  have longest := flatMap_plus_one (f := fun z => s.results (MatchState.capture index ⟨read, run ++ after, captures⟩ z))
    read captures all ends fun y a first is => fails _ a first is
  rw [results, results, List.flatMap_map, longest, MatchState.capture, whole]

end

/-! ## The first match -/

theorem matcher_group_zero (r : Regex) (x : MatchState) :
    (group 0 r).matcher some x = (r.results x).head?.map (x.capture 0) := by
  rw [matcher_eq, results, List.findSome?_map]
  cases r.results x <;> rfl

theorem execFrom_nil (r : Regex) (read : List Char) :
    r.execFrom read [] =
      (r.results ⟨read, [], fun _ => none⟩).head?.map (MatchState.capture 0 ⟨read, [], fun _ => none⟩) :=
  matcher_group_zero ..

theorem execFrom_cons (r : Regex) (read : List Char) (a : Char) (rest : List Char) :
    r.execFrom read (a :: rest) =
      ((r.results ⟨read, a :: rest, fun _ => none⟩).head?.map
        (MatchState.capture 0 ⟨read, a :: rest, fun _ => none⟩)).or (r.execFrom (a :: read) rest) := by
  rw [execFrom, matcher_group_zero]

end Regex

end Js
