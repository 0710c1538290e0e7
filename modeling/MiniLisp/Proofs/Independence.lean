import MiniLisp.Proofs.Code.Reuse
import MiniLisp.Proofs.Correspondence.Reach

/-!
# Top levels that share a store

Any number of top levels may be made in one store, and texts may be evaluated in them by turns.
What is evaluated in one of them does not show in the others.

## Main statement

* `Toplevels.independent`: the answers that one gets, and all that can be reached from one's top
  level, are the same as if no text had been evaluated in any other.
-/

namespace MiniLisp

open Code (sameness)

/-- What one asks for: a top level of one's own, with the list library or without, or the evaluation
of a text in it. -/
inductive Request where
  | make (library : Bool)
  | evalFirst (text : List Char)
  | evalText (text : List Char)

namespace Request

def isMake : Request → Bool
  | .make _ => true
  | _ => false

def newTop (depth : Nat) (library : Bool) : Run Code Toplevel :=
  if library then Toplevel.withLibrary depth else Toplevel.new

def evalIn (top? : Option Toplevel) (f : Toplevel → Run Code Val) :
    Run Code (Option Toplevel × Option Val) :=
  match top? with
  | none => pure (none, none)
  | some top => do
      let v ← f top
      pure (some top, some v)

/-- Does what is asked for by somebody with this top level; the top level that they have then comes
first, and the value of a text second. -/
def run (depth : Nat) (top? : Option Toplevel) :
    Request → Run Code (Option Toplevel × Option Val)
  | .make library => do
      let top ← newTop depth library
      pure (some top, none)
  | .evalFirst text => evalIn top? fun top => top.evalFirst depth text
  | .evalText text => evalIn top? fun top => top.evalText depth text

end Request

structure Answer where
  result : Except Fault (Option Val)
  printed : List String

structure Toplevels (ι : Type) where
  store : Store Code := {}
  of? : ι → Option Toplevel := fun _ => none

namespace Toplevels

variable {ι : Type} [DecidableEq ι]

/-- One request; whoever asks for a top level and does not get it keeps the one they had. -/
def ask (depth : Nat) (T : Toplevels ι) (who : ι) (request : Request) :
    Option (Answer × Toplevels ι) :=
  match request.run depth (T.of? who) T.store with
  | none => none
  | some (.ok (top?, v?), s) =>
      some (⟨.ok v?, s.output.toList.drop T.store.output.size⟩,
        ⟨s, Function.update T.of? who top?⟩)
  | some (.error fault, s) =>
      some (⟨.error fault, s.output.toList.drop T.store.output.size⟩, ⟨s, T.of?⟩)

def askAll (depth : Nat) (T : Toplevels ι) :
    List (ι × Request) → Option (List (ι × Answer) × Toplevels ι)
  | [] => some ([], T)
  | (who, request) :: rest => do
      let (answer, T) ← T.ask depth who request
      let (answers, T) ← askAll depth T rest
      pure ((who, answer) :: answers, T)

def answersTo (who : ι) (answers : List (ι × Answer)) : List Answer :=
  (answers.filter fun a => a.1 = who).map Prod.snd

/-- The requests that are left when the others have nothing evaluated. -/
def withoutTextsOfOthers (who : ι) (history : List (ι × Request)) : List (ι × Request) :=
  history.filter fun r => r.1 = who || r.2.isMake

end Toplevels

/-!
# What counts as the same
-/

structure Answer.Same (W : Matching) (a b : Answer) : Prop where
  result : Results (Option.Rel (sameness.Values W)) a.result b.result
  printed : a.printed = b.printed

/-- Top levels from which the same can be reached: the matching renames frames and identities one
to one, and matched frames bind the same names to the same values. -/
structure Toplevel.Same (W : Matching) (s t : Store Code) (top top' : Toplevel) : Prop where
  frames_biUnique : Relator.BiUnique W.frames
  identities_biUnique : Relator.BiUnique W.identities
  global : W.Chains top.global top'.global
  left : ∀ f, s.Reaches top.global f → ∃ g, W.frames f g ∧ t.Reaches top'.global g
  right : ∀ g, t.Reaches top'.global g → ∃ f, W.frames f g ∧ s.Reaches top.global f
  contents : ∀ f g, W.frames f g →
    Frame.Matches Eq (sameness.Values W) (s.frame f) (t.frame g)

theorem rel_imp {α α' : Type} {r r' : α → α' → Prop} {x : Option α} {y : Option α'}
    (h : Option.Rel r x y) (himp : ∀ {a b}, r a b → r' a b) :
    Option.Rel r' x y := by
  cases h with
  | some hab => exact .some (himp hab)
  | none => exact .none

theorem Results.imp {ε α α' : Type} {r r' : α → α' → Prop} {x : Except ε α} {y : Except ε α'}
    (h : Results r x y) (himp : ∀ {a b}, r a b → r' a b) :
    Results r' x y := by
  cases h with
  | ok hab => exact .ok (himp hab)
  | error e => exact .error e

theorem Answer.Same.mono {W W' : Matching} (hle : W ≤ W') {a b : Answer} (h : a.Same W b) :
    a.Same W' b :=
  ⟨h.result.imp fun hv => rel_imp hv fun hvw => hvw.mono hle, h.printed⟩

theorem Toplevel.Matches.same {W : Matching} {s t : Store Code} {top top' : Toplevel}
    (htop : Toplevel.Matches W top top') (hstores : sameness.Stores W s t)
    (hnames : ∀ {f g}, W.frames f g → W.names f = Eq) :
    Toplevel.Same W s t top top' := by
  constructor
  · exact hstores.frames_biUnique
  · exact hstores.identities_biUnique
  · exact htop.frames
  · exact fun f hf => hf.matched_left hstores hnames htop.frames
  · exact fun g hg => hg.matched_right hstores hnames htop.frames
  · intro f g hfg
    have hbindings := hstores.bindings hfg
    rw [hnames hfg] at hbindings
    exact hbindings

/-!
# Requests are matched with themselves
-/

namespace Request

variable {W : Matching} {top? top?' : Option Toplevel}

abbrev Tops (W : Matching) : Option Toplevel → Option Toplevel → Prop :=
  Option.Rel (Toplevel.Matches W)

theorem Tops.mono {W' : Matching} (hle : W ≤ W') (h : Tops W top? top?') : Tops W' top? top?' :=
  rel_imp h (Toplevel.Matches.mono hle)

def Replies (W : Matching) (x y : Option Toplevel × Option Val) : Prop :=
  Tops W x.1 y.1 ∧ Option.Rel (sameness.Values W) x.2 y.2

theorem evalIn_runs (htops : Tops W top? top?') {f f' : Toplevel → Run Code Val}
    (hf : ∀ {top top'}, Toplevel.Matches W top top' →
      sameness.Runs W sameness.Values (f top) (f' top')) :
    sameness.Runs W Replies (evalIn top? f) (evalIn top?' f') := by
  cases htops with
  | none => exact .pure ⟨.none, .none⟩
  | some htop =>
      apply Likeness.Runs.bind (hf htop)
      intro W' v v' hle hv
      exact .pure ⟨.some (htop.mono hle), .some hv⟩

theorem runs_of_isMake (depth : Nat) {request : Request} (hmake : request.isMake) :
    sameness.Runs W Replies (request.run depth top?) (request.run depth top?') := by
  cases request with
  | make library =>
      have hruns : sameness.Runs W Toplevel.Matches (newTop depth library)
          (newTop depth library) := by
        cases library with
        | true => exact Toplevel.withLibrary_runs depth
        | false => exact Toplevel.new_runs
      apply Likeness.Runs.bind hruns
      intro W' top top' _ htop
      exact .pure ⟨.some htop, .none⟩
  | evalFirst => cases hmake
  | evalText => cases hmake

theorem runs (depth : Nat) (htops : Tops W top? top?') (request : Request) :
    sameness.Runs W Replies (request.run depth top?) (request.run depth top?') := by
  cases request with
  | make => exact runs_of_isMake depth rfl
  | evalFirst text => exact evalIn_runs htops fun htop => Toplevel.evalFirst_runs depth htop text
  | evalText text => exact evalIn_runs htops fun htop => Toplevel.evalText_runs depth htop text

end Request

/-!
# Two requests that are matched
-/

namespace Matching

variable {W W' V V' : Matching} {s s' t t' : Store Code}

theorem Grows.drop_output_eq {N : Namings} (h : W.Grows N W' s s' t t') :
    s'.output.toList.drop s.output.size = t'.output.toList.drop t.output.size := by
  rcases h.printed with ⟨lines, hs, ht⟩
  rw [hs, ht, Array.toList_append, Array.toList_append, ← Array.length_toList,
    ← Array.length_toList, List.drop_left, List.drop_left]

theorem Grows.names_eq (h : W.Grows sameness.namings W' s s' t t')
    (hnames : ∀ {f g}, W.frames f g → W.names f = Eq) {f g : FrameId} (hfg : W'.frames f g) :
    W'.names f = Eq := by
  rcases h.frames hfg with hold | ⟨_, _, hnew⟩
  · rw [h.le.names hold, hnames hold]
  · exact hnew

end Matching

namespace Toplevels

variable {ι : Type} [DecidableEq ι] {depth : Nat} {T T' K : Toplevels ι} {who n : ι}
  {request : Request} {answer : Answer}

theorem of?_ask_of_ne (h : T.ask depth n request = some (answer, T')) (hne : who ≠ n) :
    T'.of? who = T.of? who := by
  unfold ask at h
  split at h
  · cases h
  · cases h
    exact Function.update_of_ne hne _ _
  · cases h
    rfl

structure Asked (U U' : Matching) (T T' K K' : Toplevels ι) (answer answer' : Answer) : Prop where
  grows : U.Grows sameness.namings U' T.store T'.store K.store K'.store
  stores : sameness.Stores U' T'.store K'.store
  answers : answer.Same U' answer'

theorem ask_rel {U : Matching} (hstores : sameness.Stores U T.store K.store)
    (hruns : sameness.Runs U Request.Replies (request.run depth (T.of? n))
      (request.run depth (K.of? n))) :
    Option.Rel (fun x y => ∃ U', Asked U U' T x.2 K y.2 x.1 y.1 ∧
        (Request.Tops U (T.of? n) (K.of? n) → Request.Tops U' (x.2.of? n) (y.2.of? n)))
      (T.ask depth n request) (K.ask depth n request) := by
  have hends := hruns T.store K.store hstores
  unfold ask
  revert hends
  generalize request.run depth (T.of? n) T.store = x
  generalize request.run depth (K.of? n) K.store = y
  intro hends
  cases hends with
  | unanswered => exact .none
  | @value U' a a' s t hgrows hstores' hreplies =>
      refine .some ⟨U', ⟨hgrows, hstores', .ok hreplies.2, hgrows.drop_output_eq⟩, ?_⟩
      intro _
      simp only [Function.update_self]
      exact hreplies.1
  | @fault U' fault s t hgrows hstores' =>
      refine .some ⟨U', ⟨hgrows, hstores', .error fault, hgrows.drop_output_eq⟩, ?_⟩
      exact Request.Tops.mono hgrows.le

theorem exists_asked {U : Matching} (hstores : sameness.Stores U T.store K.store)
    (hruns : sameness.Runs U Request.Replies (request.run depth (T.of? n))
      (request.run depth (K.of? n)))
    (h : T.ask depth n request = some (answer, T')) :
    ∃ U' answer' K', K.ask depth n request = some (answer', K') ∧
      Asked U U' T T' K K' answer answer' ∧
      (Request.Tops U (T.of? n) (K.of? n) → Request.Tops U' (T'.of? n) (K'.of? n)) := by
  have hrel := ask_rel hstores hruns
  rw [h] at hrel
  revert hrel
  cases K.ask depth n request with
  | none => nofun
  | some reply =>
      rintro ⟨U', hasked, htops⟩
      exact ⟨U', reply.1, reply.2, rfl, hasked, htops⟩

end Toplevels

/-!
# Frames kept apart

A matching `W` of what belongs to one top level in two stores, and a matching `V` of what belongs
to the others in the first store with itself.  A run under the one leaves alone what the other
matches.
-/

namespace Matching

/-- No frame of the first store that `W` matches occurs in `V`. -/
def Apart (W V : Matching) : Prop :=
  ∀ f g f' g', W.frames f g → V.frames f' g' → f ≠ f' ∧ f ≠ g'

def nothing : Matching :=
  on (fun _ => False) (fun _ => False)

theorem not_frames_nothing (f g : FrameId) : ¬ nothing.frames f g :=
  fun h => h.2

variable {W W' V V' : Matching} {s s' t t' : Store Code}

theorem Apart.of_grows_left (h : W.Apart V) (hV : sameness.Stores V s s)
    (hgrows : W.Grows sameness.namings W' s s' t t') :
    W'.Apart V := by
  intro f g f' g' hfg hfg'
  rcases hgrows.frames hfg with hold | ⟨hnew, _⟩
  · exact h _ _ _ _ hold hfg'
  · rcases hV.frames_lt hfg' with ⟨hf', hg'⟩
    exact ⟨Nat.ne_of_gt (Nat.lt_of_lt_of_le hf' hnew), Nat.ne_of_gt (Nat.lt_of_lt_of_le hg' hnew)⟩

theorem Apart.of_grows_right (h : W.Apart V) (hW : sameness.Stores W s t)
    (hgrows : V.Grows sameness.namings V' s s' s s') :
    W.Apart V' := by
  intro f g f' g' hfg hfg'
  rcases hgrows.frames hfg' with hold | ⟨hf', hg', _⟩
  · exact h _ _ _ _ hfg hold
  · have hf := (hW.frames_lt hfg).1
    exact ⟨Nat.ne_of_lt (Nat.lt_of_lt_of_le hf hf'), Nat.ne_of_lt (Nat.lt_of_lt_of_le hf hg')⟩

end Matching

theorem Likeness.Stores.nothing (s t : Store Code) : sameness.Stores .nothing s t := by
  constructor
  · exact fun h => h.2.elim
  · exact fun h => h.2.elim
  · exact Matching.on_biUnique _
  · exact Matching.on_biUnique _
  · exact fun h => h.2.elim
  · exact fun h => h.2.elim
  · exact fun h => h.2.elim

theorem Matching.Grows.evolves_of_nothing {W : Matching} {s s' t t' : Store Code}
    (h : Matching.nothing.Grows sameness.namings W s s' t t') (reach : FrameId → Prop) :
    t.Evolves reach t' :=
  h.right.mono fun g hg => absurd hg fun ⟨f, hfg⟩ => Matching.not_frames_nothing f g hfg

namespace Toplevels

variable {ι : Type}

/-- The store `K` has seen all that `who` asked for in `T`: what belongs to the top level of `who`
is matched by `W`, and the other top levels in `T` work on frames apart from it. -/
structure Keeps (who : ι) (T K : Toplevels ι) (W V : Matching) : Prop where
  own : sameness.Stores W T.store K.store
  names : ∀ {f g}, W.frames f g → W.names f = Eq
  top : Request.Tops W (T.of? who) (K.of? who)
  others : sameness.Stores V T.store T.store
  tops : ∀ n, n ≠ who → Request.Tops V (T.of? n) (T.of? n)
  apart : W.Apart V

namespace Keeps

variable {depth : Nat} {T T' K K' : Toplevels ι} {who n : ι} {W V : Matching} {request : Request}
  {answer : Answer}

theorem nobody (who : ι) (s : Store Code) :
    Keeps who ⟨s, fun _ => none⟩ ⟨s, fun _ => none⟩ .nothing .nothing where
  own := .nothing s s
  names hfg := absurd hfg (Matching.not_frames_nothing _ _)
  top := .none
  others := .nothing s s
  tops _ _ := .none
  apart _ _ _ _ hfg := absurd hfg (Matching.not_frames_nothing _ _)

theorem same (h : Keeps who T K W V) :
    Option.Rel (Toplevel.Same W T.store K.store) (T.of? who) (K.of? who) :=
  rel_imp h.top fun htop => htop.same h.own h.names

variable [DecidableEq ι]

theorem own_request (h : Keeps who T K W V) (hask : T.ask depth who request = some (answer, T')) :
    ∃ W' answer' K', K.ask depth who request = some (answer', K') ∧
      Keeps who T' K' W' V ∧ W ≤ W' ∧ answer.Same W' answer' := by
  rcases exists_asked h.own (Request.runs depth h.top request) hask with
    ⟨W', answer', K', hask', hasked, htops⟩
  refine ⟨W', answer', K', hask', ?_, hasked.grows.le, hasked.answers⟩
  have hleft : T.store.Evolves (fun f => ¬ ∃ g, V.frames f g) T'.store :=
    hasked.grows.left.mono fun f ⟨_, hfg⟩ ⟨_, hfg'⟩ => (h.apart _ _ _ _ hfg hfg').1 rfl
  have hright : T.store.Evolves (fun g => ¬ ∃ f, V.frames f g) T'.store :=
    hasked.grows.left.mono fun f ⟨_, hfg⟩ ⟨_, hfg'⟩ => (h.apart _ _ _ _ hfg hfg').2 rfl
  constructor
  · exact hasked.stores
  · exact hasked.grows.names_eq h.names
  · exact htops h.top
  · exact h.others.of_evolves hleft hright
  · intro n hne
    rw [of?_ask_of_ne hask hne]
    exact h.tops n hne
  · exact h.apart.of_grows_left h.others hasked.grows

theorem others_request (h : Keeps who T K W V) (hne : n ≠ who)
    (hask : T.ask depth n request = some (answer, T'))
    (hevolves : K.store.Evolves (fun _ => False) K'.store) (htop : K'.of? who = K.of? who) :
    ∃ V', Keeps who T' K' W V' := by
  have htops := h.tops n hne
  rcases exists_asked h.others (Request.runs depth htops request) hask with
    ⟨V', answer', T'', hask', hasked, hafter⟩
  rw [hask] at hask'
  cases hask'
  have hleft : T.store.Evolves (fun f => ¬ ∃ g, W.frames f g) T'.store :=
    hasked.grows.left.mono fun f ⟨_, hfg⟩ ⟨_, hfg'⟩ => (h.apart _ _ _ _ hfg' hfg).1 rfl
  refine ⟨V', ?_, h.names, ?_, hasked.stores, ?_, h.apart.of_grows_right h.own hasked.grows⟩
  · exact h.own.of_evolves hleft (hevolves.mono fun _ => False.elim)
  · rw [of?_ask_of_ne hask hne.symm, htop]
    exact h.top
  · intro m hm
    by_cases hmn : m = n
    · subst hmn
      exact hafter htops
    · rw [of?_ask_of_ne hask hmn]
      exact (h.tops m hm).mono hasked.grows.le

theorem others_make (h : Keeps who T K W V) (hne : n ≠ who) (hmake : request.isMake)
    (hask : T.ask depth n request = some (answer, T')) :
    ∃ V' answer' K', K.ask depth n request = some (answer', K') ∧ Keeps who T' K' W V' := by
  rcases exists_asked (.nothing T.store K.store) (Request.runs_of_isMake depth hmake) hask with
    ⟨_, answer', K', hask', hasked, _⟩
  have hevolves : K.store.Evolves (fun _ => False) K'.store :=
    hasked.grows.evolves_of_nothing _
  rcases h.others_request hne hask hevolves (of?_ask_of_ne hask' hne.symm) with ⟨V', hkeeps⟩
  exact ⟨V', answer', K', hask', hkeeps⟩

end Keeps

/-!
# Rows of requests
-/

variable [DecidableEq ι]

theorem askAll_cons_eq_some_iff {depth : Nat} {T T'' : Toplevels ι} {n : ι} {request : Request}
    {rest : List (ι × Request)} {answers : List (ι × Answer)} :
    T.askAll depth ((n, request) :: rest) = some (answers, T'') ↔
      ∃ answer T' others, T.ask depth n request = some (answer, T') ∧
        T'.askAll depth rest = some (others, T'') ∧ answers = (n, answer) :: others := by
  constructor
  · intro h
    rcases Option.bind_eq_some_iff.mp h with ⟨⟨answer, T'⟩, hask, h⟩
    rcases Option.bind_eq_some_iff.mp h with ⟨⟨others, after⟩, hrest, h⟩
    cases h
    exact ⟨answer, T', others, hask, hrest, rfl⟩
  · rintro ⟨answer, T', others, hask, hrest, rfl⟩
    apply Option.bind_eq_some_iff.mpr
    refine ⟨(answer, T'), hask, Option.bind_eq_some_iff.mpr ?_⟩
    exact ⟨(others, T''), hrest, rfl⟩

section

variable {who n : ι}

theorem answersTo_cons_self (answer : Answer) (others : List (ι × Answer)) :
    answersTo who ((who, answer) :: others) = answer :: answersTo who others := by
  simp [answersTo]

theorem answersTo_cons_of_ne (hne : n ≠ who) (answer : Answer) (others : List (ι × Answer)) :
    answersTo who ((n, answer) :: others) = answersTo who others := by
  simp [answersTo, hne]

theorem withoutTextsOfOthers_cons_self (request : Request) (rest : List (ι × Request)) :
    withoutTextsOfOthers who ((who, request) :: rest) =
      (who, request) :: withoutTextsOfOthers who rest := by
  simp [withoutTextsOfOthers]

theorem withoutTextsOfOthers_cons_of_ne (hne : n ≠ who) (request : Request)
    (rest : List (ι × Request)) :
    withoutTextsOfOthers who ((n, request) :: rest) =
      if request.isMake then (n, request) :: withoutTextsOfOthers who rest
      else withoutTextsOfOthers who rest := by
  simp [withoutTextsOfOthers, hne, List.filter_cons]

end

theorem Keeps.askAll {depth : Nat} {who : ι} {T T'' K : Toplevels ι} {W V : Matching}
    {history : List (ι × Request)} {answers : List (ι × Answer)} (h : Keeps who T K W V)
    (hask : T.askAll depth history = some (answers, T'')) :
    ∃ W'' V'' answers' K'',
      K.askAll depth (withoutTextsOfOthers who history) = some (answers', K'') ∧
      Keeps who T'' K'' W'' V'' ∧ W ≤ W'' ∧
      List.Forall₂ (Answer.Same W'') (answersTo who answers) (answersTo who answers') := by
  -- By induction on the requests.  Each keeps what the stores have in common; the second store gets
  -- all requests of `who`, and of the others those that make a top level.
  induction history generalizing T K W V answers with
  | nil =>
      cases hask
      exact ⟨W, V, [], K, rfl, h, le_refl W, .nil⟩
  | cons first rest ih =>
      rcases first with ⟨n, request⟩
      rcases askAll_cons_eq_some_iff.mp hask with ⟨answer, T', others, hfirst, hrest, rfl⟩
      by_cases hn : n = who
      · subst hn
        rcases h.own_request hfirst with ⟨W', answer', K', hfirst', hkeeps, hle, hsame⟩
        rcases ih hkeeps hrest with ⟨W'', V'', others', K'', hrest', hkeeps', hle', hothers⟩
        refine ⟨W'', V'', (n, answer') :: others', K'', ?_, hkeeps', hle.trans hle', ?_⟩
        · rw [withoutTextsOfOthers_cons_self]
          exact askAll_cons_eq_some_iff.mpr ⟨_, _, _, hfirst', hrest', rfl⟩
        · rw [answersTo_cons_self, answersTo_cons_self]
          exact .cons (hsame.mono hle') hothers
      · rw [withoutTextsOfOthers_cons_of_ne hn, answersTo_cons_of_ne hn]
        by_cases hmake : request.isMake
        · rcases h.others_make hn hmake hfirst with ⟨V', answer', K', hfirst', hkeeps⟩
          rcases ih hkeeps hrest with ⟨W'', V'', others', K'', hrest', hkeeps', hle', hothers⟩
          refine ⟨W'', V'', (n, answer') :: others', K'', ?_, hkeeps', hle', ?_⟩
          · rw [if_pos hmake]
            exact askAll_cons_eq_some_iff.mpr ⟨_, _, _, hfirst', hrest', rfl⟩
          · rw [answersTo_cons_of_ne hn]
            exact hothers
        · rcases h.others_request hn hfirst (.refl K.store) rfl with ⟨V', hkeeps⟩
          rw [if_neg hmake]
          exact ih hkeeps hrest

/-- What is evaluated in one top level does not show in another one.  Whoever asks in a store that
others use as well gets the same answers, and reaches the same from their top level, as if the
others had evaluated no text; identities and frames are renamed. -/
theorem independent (depth : Nat) (s : Store Code) (who : ι) (history : List (ι × Request))
    {answers : List (ι × Answer)} {T : Toplevels ι}
    (h : askAll depth ⟨s, fun _ => none⟩ history = some (answers, T)) :
    ∃ answers' T',
      askAll depth ⟨s, fun _ => none⟩ (withoutTextsOfOthers who history) = some (answers', T') ∧
      ∃ W : Matching,
        List.Forall₂ (Answer.Same W) (answersTo who answers) (answersTo who answers') ∧
        Option.Rel (Toplevel.Same W T.store T'.store) (T.of? who) (T'.of? who) := by
  rcases (Keeps.nobody who s).askAll h with ⟨W, V, answers', T', h', hkeeps, _, hsame⟩
  exact ⟨answers', T', h', W, hsame, hkeeps.same⟩

def meddling : List (Bool × Request) :=
  [(true, .make false), (false, .make false), (false, .evalFirst "(set! car cdr)".toList),
    (true, .evalFirst "(car (list #t))".toList), (false, .evalFirst "(car (list #t))".toList)]

theorem independent_meddling :
    ∃ answers T, askAll 9 {} meddling = some (answers, T) ∧
      answers.map (fun a => a.2.result) =
        [.ok none, .ok none, .ok (some (.primitive .cdr)), .ok (some (.bool true)),
          .ok (some (.list 7 []))] ∧
      ∃ answers' T', askAll 9 {} (withoutTextsOfOthers true meddling) = some (answers', T') ∧
        ∃ W : Matching,
          List.Forall₂ (Answer.Same W) (answersTo true answers) (answersTo true answers') ∧
          Option.Rel (Toplevel.Same W T.store T'.store) (T.of? true) (T'.of? true) := by
  have hresults : (askAll 9 {} meddling).map (fun a => a.1.map fun a => a.2.result) =
      some [.ok none, .ok none, .ok (some (.primitive .cdr)), .ok (some (.bool true)),
        .ok (some (.list 7 []))] := by
    cbv
  rcases Option.map_eq_some_iff.mp hresults with ⟨⟨answers, T⟩, h, hanswers⟩
  exact ⟨answers, T, h, hanswers, independent 9 {} true meddling h⟩

end Toplevels
end MiniLisp
