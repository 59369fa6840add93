import Vdms.CommandFootprints

/-!
# Updating one Element

Properties are set and removed one at a time. What an update does to the properties of an
element is one function of them, and this function *overrides*: at every key it either
leaves the value alone or puts one that does not depend on it. So to update an element
twice is to update it once.

## Main results

* `updateElement_runs`: an update changes the properties of its element, and nothing else.
* `updateElement_throws`: an update with a value that cannot be read does not return.
* `Overrides.idem`: an update carried out twice.
-/

namespace Vdms

open Imp Imp.Prog Platform

/-! ### Overriding -/

/-- At every key the function either leaves the value alone or puts a fixed one. -/
def Overrides (f : Props → Props) : Prop :=
  ∃ o : StringID → Option (Option Property), ∀ props key, f props key = (o key).getD (props key)

namespace Overrides

variable {α : Type} {f f' : Props → Props}

theorem id : Overrides fun props => props := ⟨fun _ => none, fun _ _ => rfl⟩

theorem update (key : StringID) (v : Option Property) :
    Overrides fun props => Function.update props key v := by
  refine ⟨fun k => if k = key then some v else none, fun props k => ?_⟩
  by_cases hk : k = key
  · subst hk
    simp
  · simp [hk]

theorem comp (h : Overrides f) (h' : Overrides f') : Overrides fun props => f' (f props) := by
  obtain ⟨o, ho⟩ := h
  obtain ⟨o', ho'⟩ := h'
  refine ⟨fun key => (o' key).or (o key), fun props key => ?_⟩
  simp only [ho', ho]
  cases o' key with
  | none => rfl
  | some v => rfl

theorem foldl {g : α → Props → Props} (h : ∀ a, Overrides (g a)) (as : List α) :
    Overrides fun props => as.foldl (fun props a => g a props) props := by
  induction as with
  | nil => exact Overrides.id
  | cons a as ih => exact (h a).comp ih

/-- **Overriding twice.** -/
theorem idem (h : Overrides f) (props : Props) : f (f props) = f props := by
  obtain ⟨o, ho⟩ := h
  funext key
  rw [ho (f props), ho props]
  cases o key with
  | none => rfl
  | some v => rfl

end Overrides

/-! ### Properties in the graph -/

namespace Graph

theorem modifyProps_id (g : Graph) (x : Element) :
    g.modifyProps x (fun props => props) = g := by
  cases x with
  | node n => simp [modifyProps]
  | edge e => simp [modifyProps]

theorem modifyProps_modifyProps (g : Graph) (x : Element) (f f' : Props → Props) :
    (g.modifyProps x f).modifyProps x f' = g.modifyProps x fun props => f' (f props) := by
  cases x with
  | node n =>
      simp only [modifyProps, List.modify_modify_eq]
      congr 2
      funext nd
      cases nd with
      | none => rfl
      | some nd => rfl
  | edge e =>
      simp only [modifyProps, List.modify_modify_eq]
      congr 2
      funext ed
      cases ed with
      | none => rfl
      | some ed => rfl

end Graph

variable [Platform]

/-- What setting a property does to the properties of an element. -/
def PMGDProp.apply (p : PMGDProp) (props : Props) : Props :=
  match p.value with
  | .ok (some v) => Function.update props (stringID p.key) (some v)
  | _ => props

theorem PMGDProp.apply_overrides (p : PMGDProp) : Overrides p.apply := by
  unfold PMGDProp.apply
  split
  · exact Overrides.update _ _
  · exact Overrides.id

/-- What an update does to the properties of an element: the given properties are set,
and then the listed ones are removed. -/
def updateProps (properties : List PMGDProp) (removeProps : List String) (props : Props) :
    Props :=
  removeProps.foldl (fun props key => Function.update props (stringID key) none)
    (properties.foldl (fun props p => p.apply props) props)

theorem updateProps_overrides (properties : List PMGDProp) (removeProps : List String) :
    Overrides (updateProps properties removeProps) :=
  (Overrides.foldl PMGDProp.apply_overrides properties).comp
    (Overrides.foldl (fun key => Overrides.update (stringID key) none) removeProps)

/-- Every property has a value that can be read. -/
def Readable (properties : List PMGDProp) : Prop := ∀ p ∈ properties, ∃ v, p.value = .ok v

/-! ### Setting and removing -/

section Runs

variable [Platform.Quiet] {s : Handler} {x : Element}

theorem setProperty_runs (hs : s.Writable) {p : PMGDProp} {v : Option Property}
    (hv : p.value = .ok v) :
    Runs (setProperty x p) s (.ret () (s.setDb (s.db.modifyProps x p.apply))) := by
  refine Runs.of_eq fun n => ?_
  cases v with
  | none =>
      have happly : p.apply = fun props => props := by
        funext props
        simp [PMGDProp.apply, hv]
      simp [setProperty, hv, ofExcept, happly, Graph.modifyProps_id, Handler.setDb]
  | some v =>
      have hcall : call (.setProperty x (stringID p.key) v) n s = .ret () s :=
        call_apply (by rw [hs]; rfl) n
      have happly : p.apply = fun props => Function.update props (stringID p.key) (some v) := by
        funext props
        simp [PMGDProp.apply, hv]
      simp [setProperty, hv, ofExcept, setElementProperty, hcall, happly, Graph.setProperty]

theorem removeElementProperty_runs (hs : s.Writable) (key : StringID) :
    Runs (removeElementProperty x key) s (.ret () (s.setDb
      (s.db.modifyProps x fun props => Function.update props key none))) := by
  have hcall : ∀ n, call (.removeProperty x key) n s = .ret () s :=
    fun n => call_apply (by rw [hs]; rfl) n
  exact Runs.of_eq fun n => by simp [removeElementProperty, hcall, Graph.removeProperty]

omit [Platform] [Platform.Quiet] in
/-- Changing the properties of one element several times in turn. Induction on the
changes. -/
theorem forEach_modifies {α : Type} {as : List α} {f : α → Handling Unit}
    {g : α → Props → Props} (hf : ∀ a ∈ as, ∀ {s : Handler}, s.Writable →
      Runs (f a) s (.ret () (s.setDb (s.db.modifyProps x (g a))))) (hs : s.Writable) :
    Runs (forEach as f) s (.ret () (s.setDb
      (s.db.modifyProps x fun props => as.foldl (fun props a => g a props) props))) := by
  induction as generalizing s with
  | nil =>
      refine Runs.of_eq fun n => ?_
      simp [Graph.modifyProps_id, Handler.setDb]
  | cons a as ih =>
      have hfirst := hf a (List.mem_cons_self ..) hs
      have hrest := ih (fun b hb => hf b (List.mem_cons_of_mem _ hb))
        (s := s.setDb (s.db.modifyProps x (g a))) hs
      rw [Handler.setDb_db, Graph.modifyProps_modifyProps] at hrest
      exact hfirst.bind hrest

theorem setProperties_runs (hs : s.Writable) {ps : List PMGDProp} (hps : Readable ps) :
    Runs (forEach ps fun p => setProperty x p) s (.ret () (s.setDb
      (s.db.modifyProps x fun props => ps.foldl (fun props p => p.apply props) props))) := by
  refine forEach_modifies (fun p hp s hs => ?_) hs
  obtain ⟨v, hv⟩ := hps p hp
  exact setProperty_runs hs hv

/-- **Update of an element.** -/
theorem updateElement_runs (hs : s.Writable) {properties : List PMGDProp}
    (hps : Readable properties) (removeProps : List String) :
    Runs (updateElement x properties removeProps) s (.ret () (s.setDb
      (s.db.modifyProps x (updateProps properties removeProps)))) := by
  have hset := setProperties_runs (x := x) hs hps
  have hremove : ∀ {s : Handler}, s.Writable → Runs
      (forEach removeProps fun key => removeElementProperty x (stringID key)) s
      (.ret () (s.setDb (s.db.modifyProps x fun props => removeProps.foldl
        (fun props key => Function.update props (stringID key) none) props))) :=
    forEach_modifies fun key _ s hs => removeElementProperty_runs hs (stringID key)
  have hremove := hremove (s := s.setDb (s.db.modifyProps x fun props =>
    properties.foldl (fun props p => p.apply props) props)) hs
  rw [Handler.setDb_db, Graph.modifyProps_modifyProps] at hremove
  exact hset.bind hremove

end Runs

/-- A value that cannot be read stops the update. Induction on the properties. -/
theorem setProperties_throws {x : Element} {ps : List PMGDProp} (hps : ¬ Readable ps)
    (s : Handler) :
    Sat (forEach ps fun p => setProperty x p) s (fun _ _ => False) fun _ _ => True := by
  induction ps generalizing s with
  | nil => exact absurd (fun p hp => by cases hp) hps
  | cons p ps ih =>
      cases hv : p.value with
      | error e =>
          refine Sat.bind (P := fun _ _ => False) (fun n => ?_) fun _ _ h => h.elim
          simp only [setProperty, hv, ofExcept, bind_apply, throw_apply, Outcome.andThen_throw]
          trivial
      | ok v =>
          refine Sat.seq fun _ t => ih (fun hrest => hps fun q hq => ?_) t
          rcases List.mem_cons.1 hq with rfl | hq
          · exact ⟨v, hv⟩
          · exact hrest q hq

theorem updateElement_throws {x : Element} {properties : List PMGDProp}
    (hps : ¬ Readable properties) (removeProps : List String) (s : Handler) :
    Sat (updateElement x properties removeProps) s (fun _ _ => False) fun _ _ => True :=
  Sat.bind (setProperties_throws hps s) fun _ _ h => h.elim

end Vdms
