import MiniLisp.Proofs.Host
import MiniLisp.Proofs.Value.Equality

/-!
# Lists known by their identity

An identity is given out once, to one list or one procedure, and the items of a list do not change.
So there is a ledger with the items of each list that has been made.  Every list that occurs in a
value, in code or in what is bound is entered there with its items, and two lists with one identity
are the same list.

## Main statements

* `Ledger.invariant_keptByHosts`: whatever a host does, all lists that it can come to are entered.
* `Host.coherent_of_reaches`: among the values that a host has, a list is known by its identity.
* `Host.equalities_lawful`: the laws of the two equalities, and that all values of a host obey them.
-/

namespace MiniLisp

/-- For each identity, the items of the list that it was given to; a procedure has none. -/
abbrev Ledger :=
  List (List Val)

def Value.marked (mark : Identity × List Val) : Val :=
  .list mark.1 mark.2

def Ledger.Has (ledger : Ledger) (mark : Identity × List Val) : Prop :=
  ledger[mark.1]? = some mark.2

def Value.Entered (ledger : Ledger) (v : Val) : Prop :=
  v.Throughout Value.marked ledger.Has

def Code.Entered (ledger : Ledger) (code : Code) : Prop :=
  code.Throughout Value.marked ledger.Has

/-- The ledger has an entry for each identity that has been given out, and all lists that occur in
what is bound are entered. -/
structure Store.Entered (ledger : Ledger) (s : Store Code) : Prop where
  length_eq : ledger.length = s.nextIdentity
  allBound : s.AllBound (Value.Entered ledger)

variable {ledger : Ledger}

theorem Store.Entered.next_eq {s : Store Code} (hs : s.Entered ledger) (items : List Val) :
    s.nextIdentity + 1 = (ledger ++ [items]).length := by
  rw [List.length_append, hs.length_eq, List.length_singleton]

/-!
# Values and code
-/

theorem Ledger.Has.append {mark : Identity × List Val} (h : ledger.Has mark) (added : Ledger) :
    Ledger.Has (ledger ++ added) mark :=
  getElem?_append_of_eq_some h added

namespace Value

theorem Entered.append {v : Val} (h : v.Entered ledger) (added : Ledger) :
    v.Entered (ledger ++ added) :=
  fun mark hoccurs => (h mark hoccurs).append added

theorem entered_atom (a : Atom) : Entered ledger (.atom a) :=
  throughout_atom fun _ => nofun

theorem entered_undefined : Entered ledger .undefined :=
  throughout_undefined fun _ => nofun

theorem entered_list {id : Identity} {items : List Val} (hentry : ledger[id]? = some items)
    (hitems : ∀ v ∈ items, v.Entered ledger) :
    Entered ledger (.list id items) := by
  refine throughout_list ?_ hitems
  rintro ⟨id', items'⟩ heq
  cases heq
  exact hentry

end Value

namespace Code

theorem Entered.append {code : Code} (h : code.Entered ledger) (added : Ledger) :
    code.Entered (ledger ++ added) :=
  fun mark hoccurs => (h mark hoccurs).append added

theorem Translates.entered {e : Val} {code : Code} {m : Identity}
    (h : Translates ledger.length e code m) (he : e.Entered ledger) :
    code.Entered (ledger ++ List.replicate (m - ledger.length) []) := by
  rintro ⟨id, items⟩ hoccurs
  rcases h.occurs hoccurs with hoccurs | hmade
  · exact he.append _ (id, items) hoccurs
  · cases hmade with
    | nil hid hid' =>
        unfold Ledger.Has
        rw [List.getElem?_append_right hid,
          List.getElem?_replicate_of_lt (Nat.sub_lt_sub_right hid hid')]

end Code

/-!
# Data
-/

mutual

theorem Value.exists_entered_ofDatum {ledger : Ledger} {n : Identity} (hn : ledger.length = n)
    (d : Datum) :
    ∃ added : Ledger, (ledger ++ added).length = (Value.ofDatum n d : Val × Identity).2 ∧
      (Value.ofDatum n d).1.Entered (ledger ++ added) := by
  cases d with
  | atom a =>
      refine ⟨[], ?_, entered_atom a⟩
      rw [List.append_nil]
      exact hn
  | list ds =>
      subst hn
      let items := (Value.ofData (ledger.length + 1) ds : List Val × Identity).1
      have hnext : (ledger ++ [items]).length = ledger.length + 1 := by
        rw [List.length_append, List.length_singleton]
      rcases Value.exists_entered_ofData hnext ds with ⟨added, hlength, hitems⟩
      refine ⟨items :: added, ?_, ?_⟩
      · rw [List.append_cons]
        exact hlength
      · rw [List.append_cons]
        refine entered_list ?_ hitems
        rw [List.getElem?_append_left (by omega)]
        exact List.getElem?_concat_length

theorem Value.exists_entered_ofData {ledger : Ledger} {n : Identity} (hn : ledger.length = n)
    (ds : List Datum) :
    ∃ added : Ledger, (ledger ++ added).length = (Value.ofData n ds : List Val × Identity).2 ∧
      ∀ v ∈ (Value.ofData n ds : List Val × Identity).1, v.Entered (ledger ++ added) := by
  cases ds with
  | nil =>
      refine ⟨[], ?_, ?_⟩
      · rw [List.append_nil]
        exact hn
      · intro v hv
        cases hv
  | cons d rest =>
      rcases Value.exists_entered_ofDatum hn d with ⟨added, hlength, hd⟩
      rcases Value.exists_entered_ofData hlength rest with ⟨added', hlength', hrest⟩
      refine ⟨added ++ added', ?_, ?_⟩
      · rw [← List.append_assoc]
        exact hlength'
      · intro v hv
        rw [← List.append_assoc]
        cases hv with
        | head => exact hd.append added'
        | tail _ hv => exact hrest v hv

end

/-!
# What hosts enter
-/

namespace Ledger

open Invariant (ends_of_refl)

def invariant : Invariant Ledger where
  grows ledger more := ledger <+: more
  store ledger s := s.Entered ledger
  value ledger v := v.Entered ledger
  code ledger code := code.Entered ledger
  env _ _ := True

variable {α : Type} {Q : Ledger → α → Prop} {s : Store Code}

theorem ends_of_fresh (hs : s.Entered ledger) (added : Ledger) {x : α} (hx : Q (ledger ++ added) x)
    {m : Identity} (hm : m = (ledger ++ added).length) :
    invariant.Ends Q ledger (.ok x) { s with nextIdentity := m } := by
  refine ⟨ledger ++ added, List.prefix_append ledger added, ⟨hm.symm, ?_⟩, ?_⟩
  · exact (hs.allBound.mono fun v hv => hv.append added).of_frames_eq rfl
  · intro y hy
    cases hy
    exact hx

theorem ends_of_list (hs : s.Entered ledger) {items : List Val}
    (hitems : ∀ v ∈ items, v.Entered ledger) :
    invariant.Ends invariant.value ledger (.ok (.list s.nextIdentity items))
      { s with nextIdentity := s.nextIdentity + 1 } := by
  apply ends_of_fresh hs [items]
  · apply Value.entered_list
    · rw [← hs.length_eq]
      exact List.getElem?_concat_length
    · exact fun v hv => (hitems v hv).append [items]
  · exact hs.next_eq items

theorem ends_of_analyze (hs : s.Entered ledger) {e : Val} (he : e.Entered ledger) {code : Code}
    {m : Identity} (h : Code.Translates s.nextIdentity e code m) :
    invariant.Ends invariant.code ledger (.ok code) { s with nextIdentity := m } := by
  rw [← hs.length_eq] at h
  apply ends_of_fresh hs (List.replicate (m - ledger.length) [])
  · exact h.entered he
  · rw [List.length_append, List.length_replicate, Nat.add_sub_cancel' h.le]

theorem invariant_kept : invariant.Kept where
  refl := List.prefix_refl
  trans := List.IsPrefix.trans
  value_grows := by
    rintro ledger _ v ⟨added, rfl⟩ hv
    exact hv.append added
  code_grows := by
    rintro ledger _ code ⟨added, rfl⟩ hcode
    exact hcode.append added
  env_grows := fun _ _ => trivial
  undefined := fun _ => Value.entered_undefined
  items := Value.Throughout.items
  body := Value.Throughout.body
  closure := fun _ => trivial
  literal := Code.Throughout.literal
  part := Code.Throughout.part
  lambda := Code.Throughout.lambda
  lookup := fun hs hv => hs.allBound.lookup? hv
  bind := fun hs hv f name => ⟨hs.length_eq, hs.allBound.bind hv f name⟩
  print := fun hs _ => ⟨hs.length_eq, hs.allBound.of_frames_eq rfl⟩
  answer := fun _ _ _ => Value.entered_atom _
  list := fun hs hitems => ends_of_list hs hitems
  procedure := fun hs hbody _ =>
    ends_of_fresh hs [[]] (Value.throughout_procedure (fun _ => nofun) (hbody.append [[]]))
      (hs.next_eq [])
  extend := fun hs _ hvs =>
    ends_of_refl (List.prefix_refl _)
      ⟨hs.length_eq, hs.allBound.extend hvs Value.entered_undefined _ _⟩ trivial
  analyze := fun hs he htranslates => ends_of_analyze hs he htranslates

theorem invariant_keptByHosts : invariant.KeptByHosts where
  toKept := invariant_kept
  atom := fun _ => Value.entered_atom
  operation := fun _ _ => Value.throughout_primitive fun _ => nofun
  newEnv := fun hs =>
    ends_of_refl (List.prefix_refl _) ⟨hs.length_eq, hs.allBound.newEnv⟩ trivial
  datum := by
    intro ledger s d v m hs hdatum
    rcases Value.exists_entered_ofDatum hs.length_eq d with ⟨added, hlength, hv⟩
    rw [hdatum] at hlength hv
    exact ends_of_fresh hs added hv hlength.symm

end Ledger

/-!
# What hosts compare
-/

theorem Value.FoundIn.occursIn {x v : Val} (h : x.FoundIn v) : x.OccursIn v := by
  induction h with
  | self => exact .self
  | item hmem _ ih => exact .item hmem ih

namespace Host

/-- Among the values that a host has, a list is known by its identity. -/
theorem coherent_of_reaches {h : Host} (hreach : Relation.ReflTransGen Host.Step {} h)
    {vs : List Val} (hvs : ∀ v ∈ vs, h.Has (.value v)) :
    Value.Coherent vs := by
  have hempty : Ledger.invariant.OfHost [] {} := ⟨⟨rfl, Store.AllBound.empty⟩, nofun⟩
  rcases Ledger.invariant_keptByHosts.reaches hreach hempty with ⟨ledger, _, hhost⟩
  have hentered : ∀ v ∈ vs, v.Entered ledger :=
    fun v hv => Ledger.invariant_keptByHosts.has hhost (hvs v hv)
  intro v hv w hw id xs ys hxs hys
  have hxs : ledger[id]? = some xs := hentered v hv (id, xs) hxs.occursIn
  have hys : ledger[id]? = some ys := hentered w hw (id, ys) hys.occursIn
  exact Option.some.inj (hxs.symm.trans hys)

/-- Identity and equality obey the laws of equalities, for values of any nesting that share lists in
any way, as long as a list is known by its identity.  This is so of all values that a host can come
to. -/
theorem equalities_lawful :
    (∀ (β : Type) (a b c : Value β), Value.Coherent [a, b, c] → Value.EqualityLaws a b c) ∧
    ∀ h : Host, Relation.ReflTransGen Host.Step {} h →
      ∀ vs : List Val, (∀ v ∈ vs, h.Has (.value v)) → Value.Coherent vs :=
  ⟨fun _ _ _ _ => Value.equalityLaws, fun _ hreach _ => coherent_of_reaches hreach⟩

theorem equalities_lawful_shared :
    let v : Val := .list 0 [.bool true]
    let w : Val := .list 1 [.bool true]
    let a : Val := .list 2 [v, v]
    let b : Val := .list 3 [w, v]
    ∃ h : Host, Relation.ReflTransGen Host.Step {} h ∧ (∀ x ∈ [a, b, w], h.Has (.value x)) ∧
      Value.EqualityLaws a b w ∧ a.identical b = false ∧ a.same b = true := by
  intro v w a b
  let held : List Thing := [.value w, .value v]
  have hv : Host.Step {} ⟨{ nextIdentity := 1 }, [.value v]⟩ :=
    .got 9 (.read (.list [.atom (.bool true)])) nofun rfl
  have hw : Host.Step ⟨{ nextIdentity := 1 }, [.value v]⟩ ⟨{ nextIdentity := 2 }, held⟩ :=
    .got 9 (.read (.list [.atom (.bool true)])) nofun rfl
  have ha : Host.Step ⟨{ nextIdentity := 2 }, held⟩
      ⟨{ nextIdentity := 3 }, .value a :: held⟩ := by
    refine .got 9 (.list [v, v]) ?_ rfl
    rintro x (_ | ⟨_, _ | ⟨_, ⟨⟩⟩⟩)
    · exact .held (.tail _ (.head _))
    · exact .held (.tail _ (.head _))
  have hb : Host.Step ⟨{ nextIdentity := 3 }, .value a :: held⟩
      ⟨{ nextIdentity := 4 }, .value b :: .value a :: held⟩ := by
    refine .got 9 (.list [w, v]) ?_ rfl
    rintro x (_ | ⟨_, _ | ⟨_, ⟨⟩⟩⟩)
    · exact .held (.tail _ (.head _))
    · exact .held (.tail _ (.tail _ (.head _)))
  have hreach := (((Relation.ReflTransGen.single hv).tail hw).tail ha).tail hb
  have hhas : ∀ x ∈ [a, b, w],
      Host.Has ⟨{ nextIdentity := 4 }, .value b :: .value a :: held⟩ (.value x) := by
    rintro x (_ | ⟨_, _ | ⟨_, _ | ⟨_, ⟨⟩⟩⟩⟩)
    · exact .held (.tail _ (.head _))
    · exact .held (.head _)
    · exact .held (.tail _ (.tail _ (.head _)))
  have hlaws := equalities_lawful.1 Code a b w (equalities_lawful.2 _ hreach [a, b, w] hhas)
  exact ⟨_, hreach, hhas, hlaws, rfl, rfl⟩

end Host
end MiniLisp
