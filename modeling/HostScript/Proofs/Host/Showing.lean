import HostScript.Host.Core
import HostScript.Proofs.Stateful

namespace HostScript

open Relation

theorem isSome_mapM {α β : Type} {f : α → Option β} {items : List α} :
    (items.mapM f).isSome ↔ ∀ a ∈ items, (f a).isSome := by
  induction items with
  | nil => simp
  | cons a items ih =>
      rw [List.mapM_cons, List.forall_mem_cons, ← ih]
      cases f a with
      | none => simp
      | some b => cases items.mapM f <;> simp

section Edges

variable {α : Type} {r r' : α → α → Prop} {S T : α → Prop}

-- With edges from `S` to `T` added, a way is an old one or leads along such an edge.
theorem transGen_of_edges (h : ∀ a b, r' a b → r a b ∨ S a ∧ T b) {a c : α}
    (hreach : TransGen r' a c) : TransGen r a c ∨
      ∃ q b, S q ∧ T b ∧ ReflTransGen r' a q ∧ ReflTransGen r' b c := by
  induction hreach with
  | @single c hac =>
      rcases h a c hac with hold | ⟨hq, hb⟩
      · exact .inl (.single hold)
      · exact .inr ⟨a, c, hq, hb, .refl, .refl⟩
  | @tail y c hay hyc ih =>
      rcases ih with hold | ⟨q, b, hq, hb, haq, hby⟩
      · rcases h y c hyc with hold' | ⟨hq, hb⟩
        · exact .inl (hold.tail hold')
        · exact .inr ⟨y, c, hq, hb, hay.to_reflTransGen, .refl⟩
      · exact .inr ⟨q, b, hq, hb, haq, hby.tail hyc⟩

-- Where no way leads from `T` back to `S`, only old ones lead on from `T`.
theorem reflTransGen_of_edges (h : ∀ a b, r' a b → r a b ∨ S a ∧ T b)
    (hopen : ∀ b q, T b → ReflTransGen r b q → ¬S q) {b c : α} (hb : T b)
    (hreach : ReflTransGen r' b c) : ReflTransGen r b c := by
  induction hreach with
  | refl => exact .refl
  | @tail y c _ hyc ih =>
      rcases h y c hyc with hold | ⟨hy, -⟩
      · exact ih.tail hold
      · exact absurd hy (hopen b y hb ih)

-- Such edges close a circle exactly if a way leads from `T` back to `S`.
theorem no_circle_iff (h : ∀ a b, r' a b ↔ r a b ∨ S a ∧ T b) (hfree : ∀ a, ¬TransGen r a a) :
    (∀ a, ¬TransGen r' a a) ↔ ∀ b q, T b → ReflTransGen r b q → ¬S q := by
  constructor
  · intro hfree' b q hb hreach hq
    have hreach' : ReflTransGen r' b q :=
      ReflTransGen.mono (fun a b hold => (h a b).mpr (.inl hold)) b q hreach
    exact hfree' q (TransGen.head' ((h q b).mpr (.inr ⟨hq, hb⟩)) hreach')
  · intro hopen a hcircle
    have hedge := fun a b => (h a b).mp
    rcases transGen_of_edges hedge hcircle with hold | ⟨q, b, hq, hb, haq, hba⟩
    · exact hfree a hold
    · exact hopen b q hb (reflTransGen_of_edges hedge hopen hb (hba.trans haq)) hq

end Edges

namespace Contents

def parts : Contents → List Value
  | .items values => values.toList
  | .fields entries => entries.map (·.2)

-- Whether objects of a class have such contents.
def fits : Contents → ObjectClass → Bool
  | .items _, .list | .fields _, .record _ => true
  | _, _ => false

end Contents

namespace World

variable {w w' : World} {o p q : ObjectRef} {v : Value} {fuel : Nat} {held : List ObjectRef}

-- The values that an object is shown with.
def parts (w : World) (o : ObjectRef) : List Value :=
  match o.cls with
  | .list => (w.items o).toList
  | .record _ => (w.fields o).map (·.2)
  | .foreign => []

theorem mem_parts_iff : v ∈ w.parts o ↔
    ∃ contents, w.objects[o.key]? = some contents ∧ contents.fits o.cls ∧ v ∈ contents.parts := by
  unfold parts items fields
  cases o.cls with
  | list | record =>
      cases w.objects[o.key]? with
      | none => simp
      | some contents => cases contents <;> simp [Contents.fits, Contents.parts]
  | foreign => simp [Contents.fits]

def Holds (w : World) (o p : ObjectRef) : Prop :=
  .object p ∈ w.parts o

-- An object that is, or holds directly or through others, one that holds itself.
def Circular (w : World) (o : ObjectRef) : Prop :=
  ∃ p, ReflTransGen w.Holds o p ∧ TransGen w.Holds p p

theorem Holds.key_lt (h : w.Holds o p) : o.key < w.objects.size := by
  obtain ⟨contents, hcontents, -⟩ := mem_parts_iff.mp h
  exact (Array.getElem?_eq_some_iff.mp hcontents).1

-- What an object holds is found under its key.
theorem Holds.of_key_eq (hp : w.Holds p o) (hq : w.Holds q q') (hkey : p.key = q.key) :
    w.Holds q o := by
  obtain ⟨contents, hcontents, -, hmem⟩ := mem_parts_iff.mp hp
  obtain ⟨contents', hcontents', hfits, -⟩ := mem_parts_iff.mp hq
  rw [hkey, hcontents'] at hcontents
  cases hcontents
  exact mem_parts_iff.mpr ⟨contents, hcontents', hfits, hmem⟩

-- The lists that are locked while the parts of an object are shown.
def lock (o : ObjectRef) (held : List ObjectRef) : List ObjectRef :=
  if o.cls = .list then o :: held else held

theorem render?_leaf (hleaf : ∀ o, v ≠ .object o) : w.render? fuel held v = leafText? v := by
  cases fuel with
  | zero => rfl
  | succ fuel =>
      cases v with
      | object o => exact absurd rfl (hleaf o)
      | null | number | bool | text => rfl

-- A list that is being shown cannot be shown again: nobody gives its lock back.
theorem render?_of_mem (hcls : o.cls = .list) (hmem : o ∈ held) :
    w.render? fuel held (.object o) = none := by
  induction fuel with
  | zero => rfl
  | succ fuel ih =>
      rw [render?]
      simp only [hcls, hmem, if_true]
      exact ih

-- Any other object is shown when its parts are.
theorem isSome_render?_succ (hfree : o.cls = .list → o ∉ held) :
    (w.render? (fuel + 1) held (.object o)).isSome ↔
      ∀ part ∈ w.parts o, (w.render? fuel (lock o held) part).isSome := by
  rw [render?]
  cases hcls : o.cls with
  | list =>
      simp only [parts, lock, hcls, if_neg (hfree hcls), if_true, bind, pure, Option.isSome_bind]
      rw [← isSome_mapM]
      generalize List.mapM (m := Option) _ (w.items o).toList = texts
      cases texts <;> simp
  | record kind =>
      have hfield : ∀ field ∈ w.fields o, (w.render? fuel held field.2).isSome ↔
          ((w.render? fuel held field.2).bind fun text => some (field.1 ++ "=" ++ text)).isSome := by
        intro field _
        cases w.render? fuel held field.2 <;> simp
      simp only [parts, lock, hcls, reduceCtorEq, if_false, List.forall_mem_map, bind, pure,
        Option.isSome_bind]
      rw [forall₂_congr hfield, ← isSome_mapM]
      generalize List.mapM (m := Option) _ (w.fields o) = texts
      cases texts <;> simp
  | foreign => simp [parts, hcls]

theorem Circular.next (h : w.Circular o) : ∃ p, w.Holds o p ∧ w.Circular p := by
  obtain ⟨q, hreach, hcircle⟩ := h
  rcases hreach.cases_head with rfl | ⟨p, hholds, hrest⟩
  · obtain ⟨p, hholds, hrest⟩ := TransGen.head'_iff.mp hcircle
    exact ⟨p, hholds, o, hrest, hcircle⟩
  · exact ⟨p, hholds, q, hrest, hcircle⟩

-- What holds itself cannot be shown in any number of steps.
theorem render?_of_circular (h : w.Circular o) : w.render? fuel held (.object o) = none := by
  induction fuel generalizing o held with
  | zero => rfl
  | succ fuel ih =>
      by_cases hheld : o.cls = .list ∧ o ∈ held
      · exact render?_of_mem hheld.1 hheld.2
      · obtain ⟨p, hholds, hp⟩ := h.next
        rw [← Option.not_isSome_iff_eq_none, isSome_render?_succ (not_and.mp hheld)]
        intro hall
        have hpart := hall _ hholds
        rw [ih hp] at hpart
        cases hpart

theorem length_le_of_lt {path : List Nat} {n : Nat} (hnodup : path.Nodup)
    (hlt : ∀ k ∈ path, k < n) : path.length ≤ n := by
  have hsub : path ⊆ List.range n := fun k hk => List.mem_range.mpr (hlt k hk)
  simpa using (List.subperm_of_subset hnodup hsub).length_le

-- `path` has the keys of the objects around the one that is shown, which are all different. There
-- are no more of them than there are objects.
theorem isSome_of_not_circular (path : List Nat) (hnodup : path.Nodup)
    (hlt : ∀ k ∈ path, k < w.objects.size) (hcircle : ¬w.Circular o)
    (hpath : ∀ q r, ReflTransGen w.Holds o q → w.Holds q r → q.key ∉ path)
    (hheld : ∀ q, ReflTransGen w.Holds o q → q ∉ held)
    (hfuel : w.objects.size < fuel + path.length) :
    (w.render? fuel held (.object o)).isSome := by
  induction fuel generalizing o held path with
  | zero =>
      have hle := length_le_of_lt hnodup hlt
      omega
  | succ fuel ih =>
      refine (isSome_render?_succ fun _ => hheld o .refl).mpr fun part hpart => ?_
      cases part with
      | object p =>
          have hholds : w.Holds o p := hpart
          have hback : ∀ q, ReflTransGen w.Holds p q → ¬w.Holds q p :=
            fun q hreach hq => hcircle ⟨p, .single hholds, TransGen.tail' hreach hq⟩
          refine ih (o.key :: path) ?_ ?_ ?_ ?_ ?_ ?_
          · exact List.nodup_cons.mpr ⟨hpath o p .refl hholds, hnodup⟩
          · intro k hk
            rcases List.mem_cons.mp hk with rfl | hk
            · exact hholds.key_lt
            · exact hlt k hk
          · rintro ⟨q, hreach, hq⟩
            exact hcircle ⟨q, .head hholds hreach, hq⟩
          · intro q r hreach hq hmem
            rcases List.mem_cons.mp hmem with hkey | hmem
            · exact hback q hreach (hholds.of_key_eq hq hkey.symm)
            · exact hpath q r (.head hholds hreach) hq hmem
          · intro q hreach hmem
            unfold lock at hmem
            split at hmem
            · rcases List.mem_cons.mp hmem with rfl | hmem
              · exact hback q hreach hholds
              · exact hheld q (.head hholds hreach) hmem
            · exact hheld q (.head hholds hreach) hmem
          · rw [List.length_cons]
            omega
      | null | number | bool | text =>
          rw [render?_leaf (by simp)]
          rfl

-- The text of a value is found in finitely many steps exactly when the value does not lead to an
-- object that holds itself. Then it is what scripts see, and no list is shown again while it is
-- being shown: that would have taken all steps there are.
theorem display_ends_iff (w : World) (v : Value) :
    (∃ fuel, w.render? fuel [] v = some (w.display v)) ↔
      ∀ o, v = .object o → ¬w.Circular o := by
  constructor
  · rintro ⟨fuel, htext⟩ o rfl hcircle
    rw [render?_of_circular hcircle] at htext
    cases htext
  · intro h
    have hsome : (w.render? w.patience [] v).isSome := by
      cases v with
      | object o =>
          refine isSome_of_not_circular [] (by simp) (by simp) (h o rfl) (by simp)
            (by simp) ?_
          exact Nat.lt_add_of_pos_right (by decide)
      | null | number | bool | text =>
          rw [render?_leaf (by simp)]
          rfl
    obtain ⟨text, htext⟩ := Option.isSome_iff_exists.mp hsome
    exact ⟨w.patience, by rw [htext, display, htext, Option.getD_some]⟩

-- Where every value has a text that is found in finitely many steps.
def ShowsAll (w : World) : Prop :=
  ∀ v, ∃ fuel, w.render? fuel [] v = some (w.display v)

-- Where no object holds itself.
def CircleFree (w : World) : Prop :=
  ∀ o, ¬TransGen w.Holds o o

theorem showsAll_iff : w.ShowsAll ↔ w.CircleFree := by
  constructor
  · intro h o hcircle
    exact (w.display_ends_iff (.object o)).mp (h _) o rfl ⟨o, .refl, hcircle⟩
  · rintro h v
    refine (w.display_ends_iff v).mpr fun o _ => ?_
    rintro ⟨p, -, hcircle⟩
    exact h p hcircle

theorem circleFree_empty : empty.CircleFree := by
  intro o hcircle
  obtain ⟨p, hholds, -⟩ := TransGen.head'_iff.mp hcircle
  exact Nat.not_lt_zero _ hholds.key_lt

-- Fewer parts make no circles.
theorem CircleFree.mono (h : w.CircleFree) (hparts : ∀ p q, w'.Holds p q → w.Holds p q) :
    w'.CircleFree :=
  fun o hcircle => h o (TransGen.mono hparts o o hcircle)

-- Where `o` is one of the lists.
def HasList (w : World) (o : ObjectRef) : Prop :=
  o.cls = .list ∧ ∃ values, w.objects[o.key]? = some (.items values)

theorem holds_setItems (hlist : w.HasList o) {values : Array Value} :
    (w.setItems o values).Holds p q ↔
      if p.key = o.key then p.cls = .list ∧ .object q ∈ values.toList else w.Holds p q := by
  obtain ⟨-, old, hold⟩ := hlist
  have hlt : o.key < w.objects.size := (Array.getElem?_eq_some_iff.mp hold).1
  rw [Holds, Holds, mem_parts_iff, mem_parts_iff]
  simp only [setItems, Array.getElem?_setIfInBounds]
  by_cases hkey : p.key = o.key
  · simp only [hkey, hlt, if_true, Option.some.injEq, exists_eq_left']
    cases p.cls <;> simp [Contents.fits, Contents.parts]
  · simp only [hkey, Ne.symm hkey, if_false]

theorem holds_of_hasList (hlist : w.HasList o) (hkey : p.key = o.key) :
    w.Holds p q ↔ p.cls = .list ∧ .object q ∈ (w.items o).toList := by
  obtain ⟨hcls, values, hvalues⟩ := hlist
  have hitems : w.items o = values := by rw [items, hvalues]
  rw [Holds, mem_parts_iff, hkey, hvalues, hitems]
  cases p.cls <;> simp [Contents.fits, Contents.parts]

end World

open World

-- What scripts do with the lists of the core library.
inductive ListCall where
  | new
  | add (o : ObjectRef) (v : Value)
  | clear (o : ObjectRef)

namespace ListCall

variable {w : World} {o p q : ObjectRef} {v : Value} {c : ListCall} {calls : List ListCall}

def after (w : World) : ListCall → World
  | .new => (Core.newList [] w).world
  | .add o v => (Core.listAdd .none o [v] w).world
  | .clear o => (Core.listClear .none o [] w).world

def OnList (w : World) : ListCall → Prop
  | .new => True
  | .add o _ | .clear o => w.HasList o

-- Whether something is added to a list to which it leads.
def Closes (w : World) : ListCall → Prop
  | .add o v => ∃ p q, v = .object p ∧ ReflTransGen w.Holds p q ∧ q.cls = .list ∧ q.key = o.key
  | .new | .clear _ => False

theorem circleFree_new (h : w.CircleFree) : (ListCall.new.after w).CircleFree := by
  refine h.mono fun p q hholds => ?_
  obtain ⟨contents, hcontents, hfits, hmem⟩ := mem_parts_iff.mp hholds
  change (w.objects.push (.items #[]))[p.key]? = some contents at hcontents
  rw [Array.getElem?_push] at hcontents
  split_ifs at hcontents with hkey
  · cases hcontents
    cases hmem
  · exact mem_parts_iff.mpr ⟨contents, hcontents, hfits, hmem⟩

theorem circleFree_clear (h : w.CircleFree) (hlist : w.HasList o) :
    ((ListCall.clear o).after w).CircleFree := by
  refine h.mono fun p q hholds => ?_
  change (w.setItems o #[]).Holds p q at hholds
  rw [holds_setItems hlist] at hholds
  split at hholds
  · cases hholds.2
  · exact hholds

theorem holds_add (hlist : w.HasList o) : ((ListCall.add o v).after w).Holds p q ↔
    w.Holds p q ∨ (p.cls = .list ∧ p.key = o.key) ∧ v = .object q := by
  change (w.setItems o ((w.items o).push v)).Holds p q ↔ _
  rw [holds_setItems hlist]
  by_cases hkey : p.key = o.key
  · rw [holds_of_hasList hlist hkey]
    simp only [hkey, if_true, Array.toList_push, List.mem_append, List.mem_singleton, and_true,
      and_or_left, eq_comm]
  · simp only [hkey, if_false, and_false, false_and, or_false]

-- A call closes a circle exactly if it adds something to a list to which it leads.
theorem circleFree_after (h : w.CircleFree) (hlist : c.OnList w) :
    (c.after w).CircleFree ↔ ¬c.Closes w := by
  cases c with
  | new => exact iff_of_true (circleFree_new h) not_false
  | clear o => exact iff_of_true (circleFree_clear h hlist) not_false
  | add o v =>
      rw [CircleFree, no_circle_iff (fun a b => holds_add (p := a) (q := b) hlist) h]
      constructor
      · rintro hopen ⟨p, q, hp, hreach, hq⟩
        exact hopen p q hp hreach hq
      · exact fun hopen p q hp hreach hq => hopen ⟨p, q, hp, hreach, hq⟩

-- Calls one after the other, each on a list that is there by then.
def Made (w : World) : List ListCall → Prop
  | [] => True
  | c :: rest => c.OnList w ∧ Made (c.after w) rest

-- None of the calls adds something to a list to which it leads.
def Open (w : World) : List ListCall → Prop
  | [] => True
  | c :: rest => ¬c.Closes w ∧ Open (c.after w) rest

-- Every value can be shown, before the calls and after each of them.
def Shown (w : World) : List ListCall → Prop
  | [] => w.ShowsAll
  | c :: rest => w.ShowsAll ∧ Shown (c.after w) rest

theorem Shown.start (h : Shown w calls) : w.ShowsAll := by
  cases calls with
  | nil => exact h
  | cons => exact h.1

-- Showing values ends, whatever scripts do with lists, as long as nothing is added to a list to
-- which it leads. After that it does not.
theorem shown_iff (hfree : w.CircleFree) (hmade : Made w calls) : Shown w calls ↔ Open w calls := by
  induction calls generalizing w with
  | nil => exact iff_of_true (showsAll_iff.mpr hfree) trivial
  | cons c rest ih =>
      obtain ⟨hlist, hrest⟩ := hmade
      have hstep := circleFree_after hfree hlist
      constructor
      · rintro ⟨-, hshown⟩
        have hfree' := showsAll_iff.mp hshown.start
        exact ⟨hstep.mp hfree', (ih hfree' hrest).mp hshown⟩
      · rintro ⟨hopen, hopens⟩
        exact ⟨showsAll_iff.mpr hfree, (ih (hstep.mpr hopen) hrest).mpr hopens⟩

theorem not_closes_add (hparts : w.parts p = []) (hkey : p.key ≠ o.key) :
    ¬(ListCall.add o (.object p)).Closes w := by
  rintro ⟨_, q, hp, hreach, -, hq⟩
  cases hp
  rcases hreach.cases_head with rfl | ⟨r, hholds, -⟩
  · exact hkey hq
  · rw [Holds, hparts] at hholds
    cases hholds

-- A list that holds another one twice.
def nesting : List ListCall :=
  [.new, .new, .add ⟨.list, 1, ""⟩ (.object ⟨.list, 0, ""⟩),
   .add ⟨.list, 1, ""⟩ (.object ⟨.list, 0, ""⟩)]

-- A list that holds itself.
def knotting : List ListCall :=
  [.new, .add ⟨.list, 0, ""⟩ (.object ⟨.list, 0, ""⟩)]

theorem shown_nesting : empty.CircleFree ∧ Made .empty nesting ∧ Shown .empty nesting ∧
    Made .empty knotting ∧ ¬Shown .empty knotting := by
  have hnesting : Made .empty nesting :=
    ⟨trivial, trivial, ⟨rfl, #[], rfl⟩, ⟨rfl, _, rfl⟩, trivial⟩
  have hknotting : Made .empty knotting := ⟨trivial, ⟨rfl, #[], rfl⟩, trivial⟩
  refine ⟨circleFree_empty, hnesting, (shown_iff circleFree_empty hnesting).mpr ?_, hknotting,
    fun hshown => ?_⟩
  · exact ⟨not_false, not_false, not_closes_add rfl (by decide), not_closes_add rfl (by decide),
      trivial⟩
  · obtain ⟨-, hopen, -⟩ := (shown_iff circleFree_empty hknotting).mp hshown
    exact hopen ⟨_, _, rfl, .refl, rfl, rfl⟩

end ListCall

end HostScript
