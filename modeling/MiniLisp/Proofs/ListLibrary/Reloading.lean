import MiniLisp.Proofs.Host.Intact
import MiniLisp.Proofs.Independence
import MiniLisp.Proofs.ListLibrary.Scope

/-!
# Loading the list library again

Wherever a host is and whatever names have been bound anew, loading the list library succeeds,
prints nothing and binds its ten names, and no others.  Every loading makes a copy of its own.
Which of two copies the names are bound to makes no difference to programs: the identities of the
one are renamed to those of the other, and everything older stands for itself.

## Main statement

* `ListLibrary.reloading`: loading the library, once or any number of times.
-/

namespace MiniLisp
namespace ListLibrary

open Code (sameness)

/-!
# What a loading leaves
-/

/-- The store `t` is the store `s` but for the names of the library, which are bound to the copy
with the identities from `first` on. -/
structure Copied (env : Env) (first : Identity) (s t : Store Code) : Prop where
  older : s.nextIdentity ≤ first
  newer : first + 131 ≤ t.nextIdentity
  size_eq : t.frames.size = s.frames.size
  output_eq : t.output = s.output
  procedure : ∀ p : Procedure,
    t.find? env.innermost ⟨p.name⟩ = some ((copy env first).procedure p)
  other_names : ∀ f x, (x ∉ Procedure.every.map fun p => (⟨p.name⟩ : Symbol)) →
    t.find? f x = s.find? f x
  other_frames : ∀ f, env.innermost ≠ f → t.frame f = s.frame f

namespace Copied

variable {env : Env} {first first' : Identity} {s t u : Store Code}

theorem loaded (henv : env.innermost < s.frames.size) :
    Copied env s.nextIdentity s (loaded env s) where
  older := Nat.le_refl _
  newer := Nat.le_refl _
  size_eq := size_loaded env s
  output_eq := output_loaded env s
  procedure := find?_loaded env s henv
  other_names _ _ hx := find?_loaded_of_not_mem henv hx _
  other_frames _ hf := frame_loaded_of_ne hf s

theorem nextIdentity_le (h : Copied env first s t) : s.nextIdentity ≤ t.nextIdentity :=
  Nat.le_trans h.older (Nat.le_trans (Nat.le_add_right first 131) h.newer)

theorem add_lt_nextIdentity (h : Copied env first s t) {k : Nat} (hk : k < 131) :
    first + k < t.nextIdentity :=
  Nat.lt_of_lt_of_le (Nat.add_lt_add_left hk first) h.newer

theorem find?_of_ne (h : Copied env first s t) {f : FrameId} (hf : env.innermost ≠ f)
    (x : Symbol) :
    t.find? f x = s.find? f x := by
  unfold Store.find?
  rw [h.other_frames f hf]

theorem trans (h : Copied env first s t) (h' : Copied env first' t u) :
    Copied env first' s u where
  older := Nat.le_trans h.nextIdentity_le h'.older
  newer := h'.newer
  size_eq := h'.size_eq.trans h.size_eq
  output_eq := h'.output_eq.trans h.output_eq
  procedure := h'.procedure
  other_names f x hx := (h'.other_names f x hx).trans (h.other_names f x hx)
  other_frames f hf := (h'.other_frames f hf).trans (h.other_frames f hf)

end Copied

def loadTimes (depth : Nat) (top : Toplevel) : Nat → Run Code Unit
  | 0 => pure ()
  | times + 1 => do
      let _ ← top.loadLibrary depth
      loadTimes depth top times

theorem Copied.exists_loadTimes {depth : Nat} (hdepth : 11 ≤ depth) {env : Env}
    {first : Identity} {s t : Store Code} (h : Copied env first s t)
    (henv : env.innermost < s.frames.size) (times : Nat) :
    ∃ last u, loadTimes depth ⟨env⟩ times t = some (.ok (), u) ∧ Copied env last s u := by
  induction times generalizing first t with
  | zero => exact ⟨first, t, rfl, h⟩
  | succ times ih =>
      have hnext : Copied env t.nextIdentity t (ListLibrary.loaded env t) :=
        .loaded (h.size_eq ▸ henv)
      rcases ih (h.trans hnext) with ⟨last, u, hloads, hcopied⟩
      refine ⟨last, u, ?_, hcopied⟩
      exact (Run.bind_of_ok (Toplevel.loadLibrary_of_le hdepth ⟨env⟩ t)).trans hloads

/-!
# Two copies
-/

/-- What there is in `s` stands for itself, and the identities of one copy of the library stand for
those of another. -/
def exchange (s : Store Code) (first first' : Identity) : Matching :=
  { s.self with
    identities := fun i j => s.self.identities i j ∨ ∃ k < 131, i = first + k ∧ j = first' + k }

theorem biUnique_or_shift {n a b k : Nat} (ha : n ≤ a) (hb : n ≤ b) :
    Relator.BiUnique fun i j : Nat => (i = j ∧ i < n) ∨ ∃ m < k, i = a + m ∧ j = b + m := by
  constructor
  · rintro i j i' (⟨rfl, hi⟩ | ⟨m, hm, rfl, rfl⟩) (⟨rfl, hi'⟩ | ⟨m', hm', rfl, hj⟩) <;> omega
  · rintro i j j' (⟨rfl, hi⟩ | ⟨m, hm, rfl, rfl⟩) (⟨rfl, hi'⟩ | ⟨m', hm', hi', rfl⟩) <;> omega

section

variable {s t u : Store Code} {first first' : Identity}

theorem self_le_exchange (s : Store Code) (first first' : Identity) :
    s.self ≤ exchange s first first' where
  frames hfg := hfg
  identities hij := .inl hij
  names _ := rfl
  binds _ hm := hm

theorem exchange_shift {k : Nat} (hk : k < 131) :
    (exchange s first first').identities (first + k) (first' + k) :=
  .inr ⟨k, hk, rfl, rfl⟩

theorem nil_alike {k : Nat} (hk : k < 131) :
    Code.Alike .same (exchange s first first') Eq (nil (first + k)) (nil (first' + k)) :=
  .literal (.list (exchange_shift hk) .nil)

theorem Procedure.body_alike (p : Procedure) :
    Code.Alike .same (exchange s first first') Eq (p.body first) (p.body first') := by
  cases p <;> repeat' first | exact nil_alike (by decide) | constructor

variable {env : Env}

theorem procedure_matches (henv : env.Within s) (p : Procedure) :
    sameness.Values (exchange s first first') ((copy env first).procedure p)
      ((copy env first').procedure p) := by
  have hplace : 121 + Procedure.every.idxOf p < 131 := by
    cases p <;> decide
  have hidentity : (exchange s first first').identities (first + 121 + Procedure.every.idxOf p)
      (first' + 121 + Procedure.every.idxOf p) := by
    rw [Nat.add_assoc, Nat.add_assoc]
    exact exchange_shift hplace
  refine .procedure hidentity (.intro Code.eq_mem_sameness ⟨?_, ?_, ?_⟩ p.body_alike)
  · exact List.forall₂_same.mpr fun _ _ => rfl
  · exact (Matching.on_envs henv : s.self.Envs Eq env env).frames
  · rintro m _ rfl
    exact .inr (Matching.resolves_self (fun _ _ => rfl) m)

theorem Copied.stores (hs : s.Intact) (henv : env.Within s) (ht : Copied env first s t)
    (hu : Copied env first' s u) :
    sameness.Stores (exchange s first first') t u := by
  constructor
  · rintro f _ ⟨rfl, hf⟩
    exact ⟨ht.size_eq ▸ hf, hu.size_eq ▸ hf⟩
  · rintro i _ (⟨rfl, hi⟩ | ⟨k, hk, rfl, rfl⟩)
    · exact ⟨Nat.lt_of_lt_of_le hi ht.nextIdentity_le, Nat.lt_of_lt_of_le hi hu.nextIdentity_le⟩
    · exact ⟨ht.add_lt_nextIdentity hk, hu.add_lt_nextIdentity hk⟩
  · exact Matching.on_biUnique _
  · exact biUnique_or_shift ht.older hu.older
  · exact fun _ => biUnique_eq
  · rintro f _ ⟨rfl, hf⟩ m _ rfl
    have hself : Option.Rel (sameness.Values (exchange s first first')) (s.find? f m)
        (s.find? f m) := by
      have hstores := hs.stores_self Code.eq_mem_sameness
      refine rel_imp (hstores.find?_rel (fun _ => rfl) ⟨rfl, hf⟩ m) ?_
      exact fun hv => hv.mono (self_le_exchange s first first')
    change Option.Rel _ (t.find? f m) (u.find? f m)
    by_cases hinnermost : env.innermost = f
    · subst hinnermost
      by_cases hm : m ∈ Procedure.every.map fun p => (⟨p.name⟩ : Symbol)
      · rcases List.mem_map.mp hm with ⟨p, -, rfl⟩
        rw [ht.procedure p, hu.procedure p]
        exact .some (procedure_matches henv p)
      · rw [ht.other_names _ m hm, hu.other_names _ m hm]
        exact hself
    · rw [ht.find?_of_ne hinnermost, hu.find?_of_ne hinnermost]
      exact hself
  · exact fun _ hm => hm.elim

end

end ListLibrary

/-!
# Programs in matched stores
-/

namespace Toplevels

open Code (sameness)

variable {ι : Type} [DecidableEq ι] {W : Matching} {T K : Toplevels ι}

structure Matched (W : Matching) (T K : Toplevels ι) : Prop where
  stores : sameness.Stores W T.store K.store
  names : ∀ {f g}, W.frames f g → W.names f = Eq
  tops : ∀ n, Request.Tops W (T.of? n) (K.of? n)

/-- The same answers to a row of requests, and afterwards the same within everybody's reach. -/
def SameAnswers (W : Matching) (x y : List (ι × Answer) × Toplevels ι) : Prop :=
  ∃ W', W ≤ W' ∧ List.Forall₂ (fun a b => a.1 = b.1 ∧ a.2.Same W' b.2) x.1 y.1 ∧
    ∀ n, Option.Rel (Toplevel.Same W' x.2.store y.2.store) (x.2.of? n) (y.2.of? n)

namespace Matched

theorem ask (h : Matched W T K) (depth : Nat) (n : ι) (request : Request) :
    Option.Rel (fun x y => ∃ W', W ≤ W' ∧ Matched W' x.2 y.2 ∧ x.1.Same W' y.1)
      (T.ask depth n request) (K.ask depth n request) := by
  have hrel := ask_rel h.stores (Request.runs depth (h.tops n) request)
  have hof : ∀ {m x y}, m ≠ n → T.ask depth n request = some x → K.ask depth n request = some y →
      Request.Tops W (x.2.of? m) (y.2.of? m) := by
    intro m x y hm hx hy
    rw [of?_ask_of_ne hx hm, of?_ask_of_ne hy hm]
    exact h.tops m
  revert hrel hof
  generalize T.ask depth n request = asked
  generalize K.ask depth n request = asked'
  intro hrel hof
  cases hrel with
  | none => exact .none
  | some hasked =>
      rcases hasked with ⟨W', hasked, htops⟩
      refine .some ⟨W', hasked.grows.le, ⟨hasked.stores, hasked.grows.names_eq h.names, ?_⟩,
        hasked.answers⟩
      intro m
      by_cases hm : m = n
      · subst hm
        exact htops (h.tops m)
      · exact (hof hm rfl rfl).mono hasked.grows.le

theorem askAll (h : Matched W T K) (depth : Nat) (history : List (ι × Request)) :
    Option.Rel (SameAnswers W) (T.askAll depth history) (K.askAll depth history) := by
  induction history generalizing W T K with
  | nil => exact .some ⟨W, le_refl W, .nil, fun n => rel_imp (h.tops n) fun htop =>
      Toplevel.Matches.same htop h.stores h.names⟩
  | cons first rest ih =>
      rcases first with ⟨n, request⟩
      have hfirst := h.ask depth n request
      unfold Toplevels.askAll
      revert hfirst
      generalize T.ask depth n request = asked
      generalize K.ask depth n request = asked'
      intro hfirst
      cases hfirst with
      | none => exact .none
      | @some x y hasked =>
          rcases x with ⟨answer, T'⟩
          rcases y with ⟨answer', K'⟩
          rcases hasked with ⟨W', hle, hmatched, hsame⟩
          have hrest := ih hmatched
          change Option.Rel _
            ((T'.askAll depth rest).bind fun r => some ((n, answer) :: r.1, r.2))
            ((K'.askAll depth rest).bind fun r => some ((n, answer') :: r.1, r.2))
          revert hrest
          generalize T'.askAll depth rest = others
          generalize K'.askAll depth rest = others'
          intro hrest
          cases hrest with
          | none => exact .none
          | some hothers =>
              rcases hothers with ⟨W'', hle', hanswers, htops⟩
              exact .some ⟨W'', hle.trans hle', .cons ⟨rfl, hsame.mono hle'⟩ hanswers, htops⟩

end Matched
end Toplevels

/-!
# Loading from any host
-/

namespace ListLibrary

open Code (sameness)

/-- Wherever a host is, loading the library into an environment that it has succeeds, prints
nothing, and binds the ten names and nothing else, each to a procedure with the parameters of its
definition that belongs to the environment.  Loading it any number of times more exchanges the copy
for another one: what the host had before is as it was, the same is within reach of the environments
that it has, and rows of requests in them get the same answers. -/
theorem reloading {h : Host} (hreach : Relation.ReflTransGen Host.Step {} h) {env : Env}
    (henv : h.Has (.environment env)) {depth : Nat} (hdepth : 11 ≤ depth) :
    let first := h.store.nextIdentity
    ∃ t, Toplevel.loadLibrary depth ⟨env⟩ h.store =
        some (.ok ((copy env first).procedure .flatten), t) ∧
      Copied env first h.store t ∧
      ∀ times, ∃ last u, loadTimes depth ⟨env⟩ times t = some (.ok (), u) ∧
        Copied env last h.store u ∧
        (∀ p, sameness.Values (exchange h.store first last) ((copy env first).procedure p)
          ((copy env last).procedure p)) ∧
        (∀ x, h.Has x → Thing.Matches (exchange h.store first last) x x) ∧
        ∀ inner, h.Has (.environment inner) →
          Toplevel.Same (exchange h.store first last) t u ⟨inner⟩ ⟨inner⟩ ∧
          ∀ deep history, Option.Rel (Toplevels.SameAnswers (exchange h.store first last))
            (Toplevels.askAll deep ⟨t, fun _ : Unit => some ⟨inner⟩⟩ history)
            (Toplevels.askAll deep ⟨u, fun _ : Unit => some ⟨inner⟩⟩ history) := by
  intro first
  have hintact := Host.intact_of_reaches hreach
  have hwithin : env.Within h.store := hintact.has henv
  have hinnermost : env.innermost < h.store.frames.size := hwithin _ (.head _)
  have hcopied : Copied env first h.store (loaded env h.store) := .loaded hinnermost
  refine ⟨_, Toplevel.loadLibrary_of_le hdepth ⟨env⟩ h.store, hcopied, fun times => ?_⟩
  rcases hcopied.exists_loadTimes hdepth hinnermost times with
    ⟨last, u, hloads, hagain⟩
  have hle := self_le_exchange h.store first last
  have hstores := hcopied.stores hintact.store hwithin hagain
  refine ⟨last, u, hloads, hagain, procedure_matches hwithin, ?_, fun inner hinner => ?_⟩
  · exact fun x hx => (hintact.has hx).matches_self.mono hle
  · have htop : Toplevel.Matches (exchange h.store first last) ⟨inner⟩ ⟨inner⟩ :=
      (hintact.has hinner).matches_self.of_environment.mono hle
    have hmatched : Toplevels.Matched (exchange h.store first last)
        ⟨loaded env h.store, fun _ : Unit => some ⟨inner⟩⟩ ⟨u, fun _ => some ⟨inner⟩⟩ :=
      ⟨hstores, fun _ => rfl, fun _ => .some htop⟩
    exact ⟨htop.same hstores fun _ => rfl, hmatched.askAll⟩

/-- The library is loaded three times into an environment without primitives, where a name of the
library and a keyword are bound. -/
theorem reloading_rebound :
    let env : Env := ⟨0, []⟩
    ∃ h : Host, Relation.ReflTransGen Host.Step {} h ∧ h.Has (.environment env) ∧
      h.store.find? 0 ⟨"length"⟩ = some (.bool true) ∧
      h.store.find? 0 ⟨"if"⟩ = some (.bool true) ∧
      ∃ t v, Toplevel.loadLibrary 11 ⟨env⟩ h.store = some (.ok v, t) ∧
        t.find? 0 ⟨"length"⟩ = some ((copy env 0).procedure .length) ∧
        t.find? 0 ⟨"if"⟩ = some (.bool true) ∧
        ∃ last u, loadTimes 11 ⟨env⟩ 2 t = some (.ok (), u) ∧
          u.find? 0 ⟨"length"⟩ = some ((copy env last).procedure .length) ∧
          Toplevel.Same (exchange h.store 0 last) t u ⟨env⟩ ⟨env⟩ := by
  intro env
  let bound : Store Code := { frames := #[⟨[(⟨"length"⟩, .bool true)]⟩] }
  let h : Host :=
    ⟨{ frames := #[⟨[(⟨"length"⟩, .bool true), (⟨"if"⟩, .bool true)]⟩] }, [.environment env]⟩
  have hmade : Host.Step {} ⟨{ frames := #[{}] }, [.environment env]⟩ :=
    .got 0 .newEnv nofun rfl
  have hlength : Host.Step ⟨{ frames := #[{}] }, [.environment env]⟩
      ⟨bound, [.environment env]⟩ := by
    refine .got 0 (.define env ⟨"length"⟩ (.bool true)) ?_ rfl
    intro x hx
    rcases List.mem_pair.mp hx with rfl | rfl
    · exact .held (.head _)
    · exact .atom _
  have hif : Host.Step ⟨bound, [.environment env]⟩ h := by
    refine .got 0 (.define env ⟨"if"⟩ (.bool true)) ?_ rfl
    intro x hx
    rcases List.mem_pair.mp hx with rfl | rfl
    · exact .held (.head _)
    · exact .atom _
  have hreach := ((Relation.ReflTransGen.single hmade).tail hlength).tail hif
  have henv : h.Has (.environment env) := .held (.head _)
  rcases reloading hreach henv (Nat.le_refl 11) with ⟨t, hload, hcopied, hagain⟩
  rcases hagain 2 with ⟨last, u, hloads, hcopied', _, _, hinner⟩
  refine ⟨h, hreach, henv, rfl, rfl, t, _, hload, hcopied.procedure .length, ?_, last, u, hloads,
    hcopied'.procedure .length, (hinner env henv).1⟩
  exact hcopied.other_names 0 ⟨"if"⟩ (by decide)

end ListLibrary
end MiniLisp
