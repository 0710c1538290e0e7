import Mathlib
import MiniLisp.Repl

/-!
# Sessions

What becomes of the lines that are typed: each is skipped, or belongs to a chunk that is evaluated,
or waits when the input ends, or asks to leave.  This depends on the lines only.  What is printed is
then told chunk by chunk.

## Main statements

* `intent_cases`: what is done with a line after lines that wait.
* `evaluate_eq_some_iff`: a chunk is answered with one value or one fault.
* `exists_session`: the loop accounts for every line, and prints what its session says.
-/

namespace MiniLisp
namespace Repl

/-!
## Lines and chunks
-/

def joined (lines : List (List Char)) : List Char :=
  lines.flatMap (· ++ ['\n'])

/-- A line that a chunk may begin with: it is not blank and does not ask to leave. -/
def Begins (line : List Char) : Prop :=
  Text.trim line ≠ [] ∧ asksToLeave (Text.trim line) = false

/-- Lines that wait for more: however many of them were typed, they stopped inside a list. -/
structure Waits (lines : List (List Char)) : Prop where
  begins : ∀ line ∈ lines.head?, Begins line
  unfinished : ∀ part, part ≠ [] → part <+: lines → Reading.isUnfinished (joined part) = true

/-- Lines that are evaluated together: they do not stop inside a list, and fewer of them do. -/
structure Complete (lines : List (List Char)) : Prop where
  ne_nil : lines ≠ []
  begins : ∀ line ∈ lines.head?, Begins line
  unfinished : ∀ part, part ≠ [] → part <+: lines → part ≠ lines →
    Reading.isUnfinished (joined part) = true
  finished : Reading.isUnfinished (joined lines) = false

theorem waits_nil : Waits [] where
  begins := by
    intro line hline
    cases hline
  unfinished := by
    intro part hne hpart
    exact absurd (List.prefix_nil.mp hpart) hne

theorem joined_concat (lines : List (List Char)) (line : List Char) :
    joined (lines ++ [line]) = joined lines ++ line ++ ['\n'] := by
  simp [joined]

theorem isEmpty_joined (lines : List (List Char)) : (joined lines).isEmpty = lines.isEmpty := by
  cases lines with
  | nil => rfl
  | cons line rest => simp [joined]

theorem Waits.begins_concat {lines : List (List Char)} (h : Waits lines) {line : List Char}
    (hline : lines = [] → Begins line) : ∀ first ∈ (lines ++ [line]).head?, Begins first := by
  intro first hfirst
  cases lines with
  | nil =>
      cases hfirst
      exact hline rfl
  | cons other rest => exact h.begins first hfirst

theorem Waits.concat {lines : List (List Char)} (h : Waits lines) {line : List Char}
    (hline : lines = [] → Begins line)
    (hunfinished : Reading.isUnfinished (joined (lines ++ [line])) = true) :
    Waits (lines ++ [line]) where
  begins := h.begins_concat hline
  unfinished := by
    intro part hne hpart
    rcases List.prefix_concat_iff.mp hpart with rfl | hpart
    · exact hunfinished
    · exact h.unfinished part hne hpart

theorem Waits.complete {lines : List (List Char)} (h : Waits lines) {line : List Char}
    (hline : lines = [] → Begins line)
    (hfinished : Reading.isUnfinished (joined (lines ++ [line])) = false) :
    Complete (lines ++ [line]) where
  ne_nil := by simp
  begins := h.begins_concat hline
  unfinished := by
    intro part hne hpart hother
    rcases List.prefix_concat_iff.mp hpart with heq | hpart
    · exact absurd heq hother
    · exact h.unfinished part hne hpart
  finished := hfinished

/-!
## Sessions
-/

inductive Session where
  /-- The input ends; these lines still wait and are dropped. -/
  | exhausted (waiting : List (List Char))
  /-- A line asks to leave; the lines after it are not read. -/
  | left (command : List Char) (unread : List (List Char))
  | skipped (line : List Char) (next : Session)
  /-- These lines are evaluated together. -/
  | chunk (lines : List (List Char)) (next : Session)

namespace Session

def lines : Session → List (List Char)
  | .exhausted waiting => waiting
  | .left command unread => command :: unread
  | .skipped line next => line :: next.lines
  | .chunk lines next => lines ++ next.lines

/-- Only blank lines are skipped, a chunk is evaluated as soon as it is complete, and lines that ask
to leave do so unless others wait. -/
def Valid : Session → Prop
  | .exhausted waiting => Waits waiting
  | .left command _ => asksToLeave (Text.trim command) = true
  | .skipped line next => Text.trim line = [] ∧ next.Valid
  | .chunk lines next => Complete lines ∧ next.Valid

end Session

def prompts (ask : String → List Output) : Nat → List Output
  | 0 => []
  | n + 1 => ask "> " ++ (List.replicate n (ask "... ")).flatten

/-- A chunk is answered with what is printed while it runs, and then with its value on standard
output or its fault on the other one. -/
inductive Answers (depth : Nat) (top : Toplevel) (chunk : List Char) (store : Store Code) :
    List Output → Store Code → Prop where
  | value {v : Val} {after : Store Code} :
      (top.evalText depth chunk).run { store with output := #[] } = some (.ok v, after) →
      Answers depth top chunk store
        (after.output.toList.map (fun line => .out (line ++ "\n")) ++ [.out (v.shown ++ "\n")])
        after
  | fault {fault : Fault} {after : Store Code} :
      (top.evalText depth chunk).run { store with output := #[] } = some (.error fault, after) →
      Answers depth top chunk store
        (after.output.toList.map (fun line => .out (line ++ "\n")) ++
          [.err ("Error: " ++ fault.report ++ "\n")])
        after

/-- A session asks for every line that is read, also for the one at the end that is not there, and
prints the answers to its chunks.  Each chunk is evaluated in the store that the ones before it
leave. -/
inductive Session.Prints (depth : Nat) (top : Toplevel) (ask : String → List Output) :
    Store Code → Session → List Output → Prop where
  | exhausted (store : Store Code) (waiting : List (List Char)) :
      Prints depth top ask store (.exhausted waiting) (prompts ask (waiting.length + 1))
  | left (store : Store Code) (command : List Char) (unread : List (List Char)) :
      Prints depth top ask store (.left command unread) (prompts ask 1)
  | skipped {store : Store Code} {line : List Char} {next : Session} {outputs : List Output} :
      Prints depth top ask store next outputs →
      Prints depth top ask store (.skipped line next) (prompts ask 1 ++ outputs)
  | chunk {store after : Store Code} {lines : List (List Char)} {next : Session}
      {answer outputs : List Output} :
      Answers depth top (joined lines) store answer after →
      Prints depth top ask after next outputs →
      Prints depth top ask store (.chunk lines next)
        (prompts ask lines.length ++ (answer ++ outputs))

/-!
## One line
-/

/-- What is done with a line after lines that wait. -/
theorem intent_cases {waiting : List (List Char)} (h : Waits waiting) (line : List Char) :
    (waiting = [] ∧ Text.trim line = [] ∧ intent (joined waiting) line = .skip) ∨
      (waiting = [] ∧ asksToLeave (Text.trim line) = true ∧
        intent (joined waiting) line = .leave) ∨
      (Waits (waiting ++ [line]) ∧
        intent (joined waiting) line = .wait (joined (waiting ++ [line]))) ∨
      (Complete (waiting ++ [line]) ∧
        intent (joined waiting) line = .evaluate (joined (waiting ++ [line]))) := by
  unfold intent
  simp only [isEmpty_joined, Bool.and_eq_true, List.isEmpty_iff, ← joined_concat]
  by_cases hskip : waiting = [] ∧ Text.trim line = []
  · exact Or.inl ⟨hskip.1, hskip.2, if_pos hskip⟩
  by_cases hleave : waiting = [] ∧ asksToLeave (Text.trim line) = true
  · exact Or.inr (Or.inl ⟨hleave.1, hleave.2, by rw [if_neg hskip, if_pos hleave]⟩)
  have hline : waiting = [] → Begins line := by
    intro hnil
    exact ⟨fun htrim => hskip ⟨hnil, htrim⟩, Bool.eq_false_iff.mpr fun hc => hleave ⟨hnil, hc⟩⟩
  rw [if_neg hskip, if_neg hleave]
  right; right
  cases hunfinished : Reading.isUnfinished (joined (waiting ++ [line])) with
  | true => exact Or.inl ⟨h.concat hline hunfinished, rfl⟩
  | false => exact Or.inr ⟨h.complete hline hunfinished, rfl⟩

theorem prompts_one (ask : String → List Output) : prompts ask 1 = ask (prompt (joined [])) :=
  List.append_nil _

theorem prompts_succ (ask : String → List Output) (waiting : List (List Char)) :
    prompts ask (waiting.length + 1) =
      prompts ask waiting.length ++ ask (prompt (joined waiting)) := by
  rw [prompt, isEmpty_joined]
  cases waiting with
  | nil => exact prompts_one ask
  | cons line rest =>
      rw [List.length_cons, prompts, prompts, List.append_assoc, List.replicate_succ',
        List.flatten_concat]
      rfl

/-- A chunk is answered with one value or one fault. -/
theorem evaluate_eq_some_iff {depth : Nat} {top : Toplevel} {chunk : List Char}
    {store after : Store Code} {outputs : List Output} :
    evaluate depth top chunk store = some (outputs, after) ↔
      Answers depth top chunk store outputs after := by
  unfold evaluate
  constructor
  · intro h
    split at h
    · cases h
    · rename_i result after' hrun
      cases h
      cases result with
      | ok v => exact .value hrun
      | error fault => exact .fault hrun
  · intro h
    cases h with
    | value hrun => rw [hrun]
    | fault hrun => rw [hrun]

/-!
## All lines
-/

section Loop

variable {depth : Nat} {top : Toplevel} {ask : String → List Output} {pending line : List Char}
  {store : Store Code}

theorem loop_of_feed_next {outputs : List Output} {next : State}
    (h : feed depth top { pending, store } line = some (outputs, some next))
    (rest : List (List Char)) :
    loop depth top ask { pending, store } (line :: rest) =
      (loop depth top ask next rest).map fun more =>
        ask (prompt pending) ++ (outputs ++ more) := by
  rw [loop, h]
  cases hrest : loop depth top ask next rest <;> simp [hrest]

theorem loop_of_feed_last {outputs : List Output}
    (h : feed depth top { pending, store } line = some (outputs, none))
    (rest : List (List Char)) :
    loop depth top ask { pending, store } (line :: rest) =
      some (ask (prompt pending) ++ outputs) := by
  rw [loop, h]
  simp

theorem loop_of_skip (h : intent pending line = .skip) (rest : List (List Char)) :
    loop depth top ask { pending, store } (line :: rest) =
      (loop depth top ask { pending, store } rest).map (ask (prompt pending) ++ ·) := by
  have hfeed : feed depth top { pending, store } line = some ([], some { pending, store }) := by
    rw [feed, h]
  exact loop_of_feed_next hfeed rest

theorem loop_of_leave (h : intent pending line = .leave) (rest : List (List Char)) :
    loop depth top ask { pending, store } (line :: rest) = some (ask (prompt pending)) := by
  have hfeed : feed depth top { pending, store } line = some ([], none) := by
    rw [feed, h]
  rw [loop_of_feed_last hfeed rest, List.append_nil]

theorem loop_of_wait {more : List Char} (h : intent pending line = .wait more)
    (rest : List (List Char)) :
    loop depth top ask { pending, store } (line :: rest) =
      (loop depth top ask { pending := more, store } rest).map (ask (prompt pending) ++ ·) := by
  have hfeed : feed depth top { pending, store } line =
      some ([], some { pending := more, store }) := by
    rw [feed, h]
  exact loop_of_feed_next hfeed rest

theorem loop_of_evaluate {chunk : List Char} (h : intent pending line = .evaluate chunk)
    {rest : List (List Char)} {outputs : List Output} :
    loop depth top ask { pending, store } (line :: rest) = some outputs ↔
      ∃ answer after more, Answers depth top chunk store answer after ∧
        loop depth top ask { store := after } rest = some more ∧
        outputs = ask (prompt pending) ++ (answer ++ more) := by
  have hfeed : feed depth top { pending, store } line =
      (evaluate depth top chunk store).map fun result =>
        (result.1, some { store := result.2 }) := by
    rw [feed, h]
  constructor
  · intro hloop
    cases heval : evaluate depth top chunk store with
    | none =>
        rw [heval] at hfeed
        rw [loop, hfeed] at hloop
        cases hloop
    | some result =>
        rcases result with ⟨answer, after⟩
        rw [heval] at hfeed
        rw [loop_of_feed_next hfeed] at hloop
        rcases Option.map_eq_some_iff.mp hloop with ⟨more, hrest, rfl⟩
        exact ⟨answer, after, more, evaluate_eq_some_iff.mp heval, hrest, rfl⟩
  · rintro ⟨answer, after, more, hanswer, hrest, rfl⟩
    rw [evaluate_eq_some_iff.mpr hanswer] at hfeed
    rw [loop_of_feed_next hfeed, hrest]
    rfl

end Loop

/-- The session is what becomes of lines after others that wait: it holds them all, and it prints
the prompts for the ones that wait and then what the loop prints. -/
structure Tells (waiting lines : List (List Char)) (s : Session) : Prop where
  valid : s.Valid
  lines_eq : s.lines = waiting ++ lines
  prints_iff : ∀ depth top ask store printed, s.Prints depth top ask store printed ↔
    ∃ outputs, loop depth top ask { pending := joined waiting, store } lines = some outputs ∧
      printed = prompts ask waiting.length ++ outputs

section Tells

variable {waiting rest : List (List Char)} {line : List Char} {s : Session}

theorem tells_exhausted (h : Waits waiting) : Tells waiting [] (.exhausted waiting) where
  valid := h
  lines_eq := (List.append_nil waiting).symm
  prints_iff := by
    intro depth top ask store printed
    constructor
    · rintro ⟨⟩
      exact ⟨_, rfl, prompts_succ ask waiting⟩
    · rintro ⟨outputs, houtputs, rfl⟩
      cases houtputs
      rw [← prompts_succ]
      exact .exhausted store waiting

theorem tells_left (hcommand : asksToLeave (Text.trim line) = true)
    (hintent : intent (joined []) line = .leave) :
    Tells [] (line :: rest) (.left line rest) where
  valid := hcommand
  lines_eq := rfl
  prints_iff := by
    intro depth top ask store printed
    rw [loop_of_leave hintent, ← prompts_one ask]
    constructor
    · rintro ⟨⟩
      exact ⟨_, rfl, rfl⟩
    · rintro ⟨outputs, houtputs, rfl⟩
      cases houtputs
      exact .left store line rest

theorem Tells.skipped (h : Tells [] rest s) (hblank : Text.trim line = [])
    (hintent : intent (joined []) line = .skip) :
    Tells [] (line :: rest) (.skipped line s) where
  valid := ⟨hblank, h.valid⟩
  lines_eq := congrArg (line :: ·) h.lines_eq
  prints_iff := by
    intro depth top ask store printed
    rw [loop_of_skip hintent, ← prompts_one ask]
    constructor
    · rintro ⟨⟩
      rename_i printed hnext
      rcases (h.prints_iff depth top ask store printed).mp hnext with ⟨more, hloop, rfl⟩
      exact ⟨_, by rw [hloop]; rfl, rfl⟩
    · rintro ⟨outputs, houtputs, rfl⟩
      rcases Option.map_eq_some_iff.mp houtputs with ⟨more, hloop, rfl⟩
      exact .skipped ((h.prints_iff depth top ask store more).mpr ⟨more, hloop, rfl⟩)

theorem Tells.waited (h : Tells (waiting ++ [line]) rest s)
    (hintent : intent (joined waiting) line = .wait (joined (waiting ++ [line]))) :
    Tells waiting (line :: rest) s where
  valid := h.valid
  lines_eq := h.lines_eq.trans (List.append_cons waiting line rest).symm
  prints_iff := by
    intro depth top ask store printed
    rw [loop_of_wait hintent, h.prints_iff, List.length_append, List.length_singleton,
      prompts_succ]
    constructor
    · rintro ⟨more, hloop, rfl⟩
      exact ⟨_, by rw [hloop]; rfl, by rw [List.append_assoc]⟩
    · rintro ⟨outputs, houtputs, rfl⟩
      rcases Option.map_eq_some_iff.mp houtputs with ⟨more, hloop, rfl⟩
      exact ⟨more, hloop, by rw [List.append_assoc]⟩

theorem Tells.chunk (h : Tells [] rest s) (hcomplete : Complete (waiting ++ [line]))
    (hintent : intent (joined waiting) line = .evaluate (joined (waiting ++ [line]))) :
    Tells waiting (line :: rest) (.chunk (waiting ++ [line]) s) where
  valid := ⟨hcomplete, h.valid⟩
  lines_eq := by
    rw [Session.lines, h.lines_eq, List.nil_append, ← List.append_cons]
  prints_iff := by
    intro depth top ask store printed
    have hprompts : prompts ask (waiting ++ [line]).length =
        prompts ask waiting.length ++ ask (prompt (joined waiting)) := by
      rw [List.length_append, List.length_singleton, prompts_succ]
    simp only [loop_of_evaluate hintent]
    constructor
    · rintro ⟨⟩
      rename_i after answer printed hanswer hnext
      rcases (h.prints_iff depth top ask after printed).mp hnext with ⟨more, hloop, rfl⟩
      refine ⟨_, ⟨answer, after, _, hanswer, hloop, rfl⟩, ?_⟩
      rw [hprompts, List.append_assoc]
    · rintro ⟨outputs, ⟨answer, after, more, hanswer, hloop, rfl⟩, rfl⟩
      have hnext := (h.prints_iff depth top ask after more).mpr ⟨more, hloop, rfl⟩
      have hchunk := Session.Prints.chunk hanswer hnext
      rw [hprompts, List.append_assoc] at hchunk
      exact hchunk

end Tells

theorem exists_tells {waiting : List (List Char)} (h : Waits waiting)
    (lines : List (List Char)) : ∃ s, Tells waiting lines s := by
  induction lines generalizing waiting with
  | nil => exact ⟨_, tells_exhausted h⟩
  | cons line rest ih =>
      rcases intent_cases h line with ⟨rfl, hblank, hintent⟩ | ⟨rfl, hcommand, hintent⟩ |
        ⟨hwaits, hintent⟩ | ⟨hcomplete, hintent⟩
      · rcases ih waits_nil with ⟨s, hs⟩
        exact ⟨_, hs.skipped hblank hintent⟩
      · exact ⟨_, tells_left hcommand hintent⟩
      · rcases ih hwaits with ⟨s, hs⟩
        exact ⟨s, hs.waited hintent⟩
      · rcases ih waits_nil with ⟨s, hs⟩
        exact ⟨_, hs.chunk hcomplete hintent⟩

/-- Every line is skipped, evaluated in a chunk, dropped at the end or left unread, in this order
and whatever is evaluated; and what is printed are the answers to the chunks, one after the
other. -/
theorem exists_session (lines : List (List Char)) :
    ∃ s : Session, s.Valid ∧ s.lines = lines ∧
      ∀ depth top ask store outputs, loop depth top ask { store } lines = some outputs ↔
        s.Prints depth top ask store outputs := by
  rcases exists_tells waits_nil lines with ⟨s, hs⟩
  refine ⟨s, hs.valid, hs.lines_eq, ?_⟩
  intro depth top ask store outputs
  rw [hs.prints_iff]
  simp only [List.length_nil, prompts, List.nil_append, exists_eq_right']
  rfl

end Repl
end MiniLisp
