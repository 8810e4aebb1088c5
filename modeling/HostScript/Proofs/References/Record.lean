import HostScript.Proofs.References.Requests

namespace HostScript.References

-- A request, its answer, and what the host was told meanwhile.
structure Event where
  request : Request
  answer : Except Fault Answer
  told : List Hook

variable {t t' : References} {r : Request} {a : Answer} {told : List Hook} {h k : Nat}
  {o : ObjectRef} {e : Event} {f : Fault}

namespace Event

-- A position is taken for a payload that had none; of an object the host is told then.
def allocates (e : Event) (h : Nat) : Bool :=
  match e.request, e.answer with
  | .insertText _, .ok (.handle k) => k = h
  | .acquire _, .ok (.handle k) => k = h && !e.told.isEmpty
  | _, _ => false

-- One more reference to a position in use.
def takes (e : Event) (h : Nat) : Bool :=
  match e.request, e.answer with
  | .addRef k, .ok _ => k = h
  | .acquire _, .ok (.handle k) => k = h && e.told.isEmpty
  | _, _ => false

def gives (e : Event) (h : Nat) : Bool :=
  match e.request, e.answer with
  | .release k, .ok _ => k = h
  | _, _ => false

def drains (e : Event) : Bool :=
  e.request = .drain

end Event

-- What a request leaves of the table, be it refused or not.
def after (t : References) (r : Request) : References :=
  match (perform r).run t with
  | .ok _ t' => t'
  | .error _ t' => t'

def event (t : References) (r : Request) : Event where
  request := r
  answer := match (perform r).run t with
    | .ok a _ => .ok a
    | .error f _ => .error f
  told := (t.after r).hooks.toList.drop t.hooks.size

def afterAll (t : References) (rs : List Request) : References :=
  rs.foldl after t

def log (t : References) : List Request → List Event
  | [] => []
  | r :: rs => t.event r :: (t.after r).log rs

theorem after_of_ok (hr : t.serve r = .ok (a, t')) : t.after r = t' := by
  simp [after, perform_run, hr, InPlace.ofExcept]

theorem after_of_error (hr : t.serve r = .error f) : t.after r = t := by
  simp [after, perform_run, hr, InPlace.ofExcept]

theorem event_answer (t : References) (r : Request) :
    (t.event r).answer = (t.serve r).map (·.1) := by
  cases hr : t.serve r <;> simp [event, perform_run, hr, InPlace.ofExcept, Except.map]

-- What becomes of the uses of a position by a request.
structure Counted (h before after : Nat) (e : Event) : Prop where
  allocated : e.allocates h → after = 1
  drained : e.drains → after = 0
  counted : e.allocates h = false → e.drains = false →
    after + (e.gives h).toNat = before + (e.takes h).toNat
  taken : e.takes h → before ≠ 0

theorem uses_of_entry {entry : Option Reference}
    (hf : ∀ j, t'.find? j = if j = k then entry else t.find? j) (h : Nat) :
    t'.uses h = if k = h then (entry.map (·.count)).getD 0 else t.uses h := by
  by_cases hk : k = h
  · simp [uses, count?, hf, hk]
  · simp [uses, count?, hf, hk, Ne.symm hk]

theorem uses_lowered (ht : t.Sound) {entry : Reference} (he : t.find? h = some entry) :
    ((lowered entry).map (·.count)).getD 0 + 1 = t.uses h := by
  have hpos := ht.positive h entry he
  rw [uses_of_find? he, lowered]
  split
  · simp
    omega
  · simp
    omega

theorem Change.counted (hc : Change t r a told t') (ht : t.Sound) (h : Nat) :
    Counted h (t.uses h) (t'.uses h) ⟨r, .ok a, told⟩ := by
  cases hc with
  | @text _ s k empty find | @entered _ o k empty _ find =>
      rw [uses_of_entry find]
      constructor <;> by_cases hk : k = h <;>
        simp [Event.allocates, Event.drains, Event.takes, Event.gives, hk]
  | @again _ o k c used find =>
      have hpos : c ≠ 0 := Nat.ne_of_gt (ht.positive k _ used)
      have hused : k = h → t.uses h = c := by
        rintro rfl
        rw [uses_of_find? used]
      rw [uses_of_entry find]
      constructor <;> by_cases hk : k = h <;>
        simp [Event.allocates, Event.drains, Event.takes, Event.gives, hk, hpos, hused]
  | @raised _ k entry used find =>
      have hpos : entry.count ≠ 0 := Nat.ne_of_gt (ht.positive k _ used)
      have hused : k = h → t.uses h = entry.count := by
        rintro rfl
        rw [uses_of_find? used]
      rw [uses_of_entry find]
      constructor <;> by_cases hk : k = h <;>
        simp [Event.allocates, Event.drains, Event.takes, Event.gives, hk, hpos, hused]
  | @lowered _ k entry used find =>
      have hused := uses_lowered ht used
      rw [uses_of_entry find]
      constructor <;> by_cases hk : k = h <;>
        simp [Event.allocates, Event.drains, Event.takes, Event.gives, hk]
      rw [← hk, hused]
  | drained find =>
      have hnone : t'.uses h = 0 := uses_of_empty (find h)
      constructor <;> simp [Event.allocates, Event.drains, Event.takes, hnone]

-- The record of a request that is not refused.
theorem event_of_ok (hr : t.serve r = .ok (a, t')) (hh : t'.hooks.toList = t.hooks.toList ++ told) :
    t.event r = ⟨r, .ok a, told⟩ := by
  have hafter := after_of_ok hr
  simp [event, perform_run, hr, InPlace.ofExcept, hafter, hh]

theorem event_of_error (hr : t.serve r = .error f) : t.event r = ⟨r, .error f, []⟩ := by
  have hafter := after_of_error hr
  simp [event, perform_run, hr, InPlace.ofExcept, hafter]

theorem sound_after (ht : t.Sound) (r : Request) : (t.after r).Sound := by
  cases hr : t.serve r with
  | error f => rwa [after_of_error hr]
  | ok p =>
      rw [after_of_ok hr]
      exact (serving_of_ok ht hr).sound

theorem within_after (ht : t.Sound) (r : Request) : t.Within (t.after r) := by
  cases hr : t.serve r with
  | error f =>
      rw [after_of_error hr]
      exact ⟨rfl, id⟩
  | ok p =>
      rw [after_of_ok hr]
      exact (serving_of_ok ht hr).within

theorem event_counted (ht : t.Sound) (r : Request) (h : Nat) :
    Counted h (t.uses h) ((t.after r).uses h) (t.event r) := by
  cases hr : t.serve r with
  | error f =>
      rw [after_of_error hr, event_of_error hr]
      cases r with
      | drain => cases hr
      | _ => constructor <;> simp [Event.allocates, Event.drains, Event.takes, Event.gives]
  | ok p =>
      obtain ⟨-, -, told, hhooks, hchange⟩ := serving_of_ok ht hr
      rw [after_of_ok hr, event_of_ok hr hhooks]
      exact hchange.counted ht h

section Log

variable {rs : List Request}

theorem sound_afterAll (ht : t.Sound) (rs : List Request) : (t.afterAll rs).Sound := by
  induction rs generalizing t with
  | nil => exact ht
  | cons r rs ih => exact ih (sound_after ht r)

theorem within_afterAll (ht : t.Sound) (rs : List Request) : t.Within (t.afterAll rs) := by
  induction rs generalizing t with
  | nil => exact ⟨rfl, id⟩
  | cons r rs ih =>
      obtain ⟨hcap, hsize⟩ := within_after ht r
      obtain ⟨hcaps, hsizes⟩ := ih (sound_after ht r)
      rw [hcap] at hcaps hsizes
      exact ⟨hcaps, fun hle => hsizes (hsize hle)⟩

theorem afterAll_concat (t : References) (rs : List Request) (r : Request) :
    t.afterAll (rs ++ [r]) = (t.afterAll rs).after r := by
  simp [afterAll]

theorem log_concat (t : References) (rs : List Request) (r : Request) :
    t.log (rs ++ [r]) = t.log rs ++ [(t.afterAll rs).event r] := by
  induction rs generalizing t with
  | nil => rfl
  | cons first rs ih => exact congrArg (t.event first :: ·) (ih (t.after first))

-- A record is made one request after the other.
theorem log_split {before since : List Event} (hl : t.log rs = before ++ since) :
    ∃ earlier later, rs = earlier ++ later ∧ t.log earlier = before ∧
      (t.afterAll earlier).log later = since := by
  induction before generalizing t rs with
  | nil => exact ⟨[], rs, rfl, rfl, hl⟩
  | cons e before ih =>
      cases rs with
      | nil => cases hl
      | cons r rs =>
          obtain ⟨rfl, hrest⟩ := List.cons.inj hl
          obtain ⟨earlier, later, rfl, hbefore, hsince⟩ := ih hrest
          exact ⟨r :: earlier, later, rfl, congrArg (t.event r :: ·) hbefore, hsince⟩

-- A count as a record tells it: from the last time that the position was taken for a payload, with
-- nothing given back at once since.
def Standing (log : List Event) (h c : Nat) : Prop :=
  ∃ before e since, log = before ++ e :: since ∧ e.allocates h ∧
    (∀ later ∈ since, later.allocates h = false ∧ later.drains = false) ∧
    c + since.countP (·.gives h) = 1 + since.countP (·.takes h)

theorem uses_since (ht : t.Sound) (hl : ∀ e ∈ t.log rs, e.allocates h = false ∧ e.drains = false) :
    (t.afterAll rs).uses h + (t.log rs).countP (·.gives h) =
      t.uses h + (t.log rs).countP (·.takes h) := by
  induction rs generalizing t with
  | nil => rfl
  | cons r rs ih =>
      obtain ⟨⟨hallocates, hdrains⟩, hrest⟩ := List.forall_mem_cons.mp hl
      have hstep := (event_counted ht r h).counted hallocates hdrains
      have hrun := ih (sound_after ht r) hrest
      simp only [log, afterAll, List.foldl_cons, List.countP_cons] at hrun ⊢
      cases hg : (t.event r).gives h <;> cases hk : (t.event r).takes h <;>
        simp [hg, hk] at hstep ⊢ <;> omega

theorem uses_of_standing (ht : t.Sound) {c : Nat} (hs : Standing (t.log rs) h c) :
    (t.afterAll rs).uses h = c := by
  obtain ⟨before, e, since, hl, htaken, hquiet, hc⟩ := hs
  obtain ⟨earlier, later, rfl, -, hlater⟩ := log_split hl
  have hu := sound_afterAll ht earlier
  cases later with
  | nil => cases hlater
  | cons r later =>
      obtain ⟨rfl, rfl⟩ := List.cons.inj hlater
      have hone := (event_counted hu r h).allocated htaken
      have hrun := uses_since (sound_after hu r) hquiet
      have hall : t.afterAll (earlier ++ r :: later) =
          ((t.afterAll earlier).after r).afterAll later := by
        simp [afterAll]
      rw [hall]
      omega

theorem standing_of_uses (ht : t.Sound) (hunused : t.uses h = 0) (rs : List Request)
    (hu : (t.afterAll rs).uses h ≠ 0) : Standing (t.log rs) h ((t.afterAll rs).uses h) := by
  induction rs using List.reverseRecOn with
  | nil => exact absurd hunused hu
  | append_singleton rs r ih =>
      rw [afterAll_concat] at hu ⊢
      rw [log_concat]
      obtain ⟨htaken, hdrained, hcounted, htakes⟩ := event_counted (sound_afterAll ht rs) r h
      set e := (t.afterAll rs).event r
      cases hallocates : e.allocates h with
      | true => exact ⟨t.log rs, e, [], rfl, hallocates, by simp, by simp [htaken hallocates]⟩
      | false =>
          have hdrains : e.drains = false := by
            cases hd : e.drains with
            | false => rfl
            | true => exact absurd (hdrained hd) hu
          have hstep := hcounted hallocates hdrains
          have hbefore : (t.afterAll rs).uses h ≠ 0 := by
            cases hk : e.takes h with
            | true => exact htakes hk
            | false =>
                simp only [hk, Bool.toNat_false] at hstep
                omega
          obtain ⟨before, first, since, hl, hfirst, hquiet, hc⟩ := ih hbefore
          refine ⟨before, first, since ++ [e], by simp [hl], hfirst, ?_, ?_⟩
          · intro later hmem
            rcases List.mem_append.mp hmem with hmem | hmem
            · exact hquiet later hmem
            · obtain rfl := List.mem_singleton.mp hmem
              exact ⟨hallocates, hdrains⟩
          · simp only [List.countP_append, List.countP_singleton]
            cases hg : e.gives h <;> cases hk : e.takes h <;> simp [hg, hk] at hstep ⊢ <;> omega

end Log

theorem Sound.free_perm (ht : t.Sound) :
    t.free.Perm ((List.range t.slots.size).filter fun h => (t.find? h).isNone) := by
  refine (List.perm_ext_iff_of_nodup ht.nodup (List.nodup_range.filter _)).mpr fun h => ?_
  simp [ht.free]

theorem Sound.live_add_free (ht : t.Sound) :
    ((List.range t.slots.size).countP fun h => (t.find? h).isSome) + t.free.length =
      t.slots.size := by
  have hfree := ht.free_perm.length_eq
  have hall := List.length_eq_countP_add_countP (fun h => (t.find? h).isSome)
    (l := List.range t.slots.size)
  rw [← List.countP_eq_length_filter] at hfree
  rw [List.length_range] at hall
  have hnone : ((List.range t.slots.size).countP fun h => (t.find? h).isNone) =
      (List.range t.slots.size).countP fun h => ¬(t.find? h).isSome := by
    congr 1
    funext h
    cases t.find? h <;> rfl
  omega

theorem Sound.live_eq (ht : t.Sound) :
    t.live = (List.range t.slots.size).countP fun h => (t.find? h).isSome := by
  have hall := ht.live_add_free
  rw [live]
  omega

-- The table is full exactly if every position that it may have is in use.
theorem Sound.full_iff (ht : t.Sound) (hle : t.slots.size ≤ t.capacity) :
    (t.free = [] ∧ t.capacity ≤ t.slots.size) ↔ t.live = t.capacity := by
  have hall := ht.live_add_free
  rw [← List.length_eq_zero_iff, live]
  constructor
  · rintro ⟨hfree, hcap⟩
    omega
  · intro hlive
    constructor <;> omega

theorem Sound.once (ht : t.Sound) (hh : t.get? h = some (.object o))
    (hk : t.get? k = some (.object o)) : h = k := by
  rw [← ht.holder] at hh hk
  exact Option.some.inj (hh.symm.trans hk)

theorem Sound.apart (ht : t.Sound) {o' : ObjectRef} (hh : t.holders[o]? = some h)
    (hk : t.holders[o']? = some h) : o = o' := by
  rw [ht.holder] at hh hk
  exact Payload.object.inj (Option.some.inj (hh.symm.trans hk))

-- The table has a position for an object.
def Holds (t : References) (o : ObjectRef) : Prop :=
  ∃ h, t.get? h = some (.object o)

theorem Sound.holds_iff (ht : t.Sound) : t.Holds o ↔ t.holders.contains o := by
  rw [Std.TreeMap.contains_eq_isSome_getElem?, Option.isSome_iff_exists]
  exact exists_congr fun h => (ht.holder o h).symm

-- What the host must be told of an object that entered the table, or left it, or did neither.
structure Truthful (o : ObjectRef) (before after : Prop) (told : List Hook) : Prop where
  entered : ¬before → after → told.filter (·.about = o) = [.acquired o]
  left : before → ¬after → told.filter (·.about = o) = [.released o]
  stayed : (before ↔ after) → told.filter (·.about = o) = []

theorem Truthful.of_same {before after : Prop} (hs : before ↔ after)
    (ht : told.filter (·.about = o) = []) : Truthful o before after told :=
  ⟨fun hb ha => absurd (hs.mpr ha) hb, fun hb ha => absurd (hs.mp hb) ha, fun _ => ht⟩

theorem get?_of_entry {entry : Option Reference}
    (hf : ∀ j, t'.find? j = if j = k then entry else t.find? j) (h : Nat) :
    t'.get? h = if h = k then entry.map (·.payload) else t.get? h := by
  by_cases hk : h = k <;> simp [get?, hf, hk]

theorem holds_same {entry : Option Reference}
    (hf : ∀ j, t'.find? j = if j = k then entry else t.find? j)
    (hp : entry.map (·.payload) = some (.object o) ↔ t.get? k = some (.object o)) :
    t.Holds o ↔ t'.Holds o := by
  refine exists_congr fun h => ?_
  rw [get?_of_entry hf]
  by_cases hk : h = k
  · simp [hk, hp]
  · simp [hk]

-- An object that loses its last reference has no other position.
theorem truthful_lowered (ht : t.Sound) {entry : Reference} (used : t.find? k = some entry)
    (find : ∀ j, t'.find? j = if j = k then lowered entry else t.find? j) (o : ObjectRef) :
    Truthful o (t.Holds o) (t'.Holds o) (partingHooks entry).toList := by
  have hget : t.get? k = some entry.payload := by simp [get?, used]
  by_cases hc : 1 < entry.count
  · refine .of_same (holds_same find ?_) ?_
    · simp [lowered, hc, hget]
    · cases hp : entry.payload <;> simp [partingHooks, hp, hc]
  · cases hp : entry.payload with
    | text s =>
        refine .of_same (holds_same find ?_) (by simp [partingHooks, hp])
        simp [lowered, hc, hget, hp]
    | object o' =>
        rw [hp] at hget
        by_cases ho : o' = o
        · subst ho
          have hbefore : t.Holds o' := ⟨k, hget⟩
          have hafter : ¬t'.Holds o' := by
            rintro ⟨h, hh⟩
            rw [get?_of_entry find, lowered, if_neg hc] at hh
            split at hh
            · cases hh
            · rename_i hne
              exact hne (ht.once hh hget)
          exact ⟨fun hb => absurd hbefore hb, fun _ _ => by simp [partingHooks, hp, hc],
            fun hs => absurd (hs.mp hbefore) hafter⟩
        · refine .of_same (holds_same find ?_) (by simp [partingHooks, hp, hc, ho])
          simp [lowered, hc, hget, ho]

theorem farewells_leftovers (ht : t.Sound) (o : ObjectRef) :
    (InPlace.farewells t.leftovers).filter (·.about = o) =
      if t.holders.contains o then [.released o] else [] := by
  have htold := toldOf_drain t o
  rw [filterMap_farewell ht o] at htold
  simp only [toldOf, drain, Array.toList_append, List.filter_append] at htold
  exact List.append_cancel_left htold

theorem Change.truthful (hc : Change t r a told t') (ht : t.Sound) (o : ObjectRef) :
    Truthful o (t.Holds o) (t'.Holds o) told := by
  cases hc with
  | @text _ s k empty find =>
      exact .of_same (holds_same find (by simp [get?, empty])) rfl
  | @entered _ o' k empty unheld find =>
      by_cases ho : o' = o
      · subst ho
        have hbefore : ¬t.Holds o' := by
          rintro ⟨h, hh⟩
          exact unheld h hh
        have hafter : t'.Holds o' := ⟨k, by simp [get?, find]⟩
        exact ⟨fun _ _ => by simp, fun hb => absurd hb hbefore,
          fun hs => absurd (hs.mpr hafter) hbefore⟩
      · exact .of_same (holds_same find (by simp [get?, empty, ho])) (by simp [ho])
  | @again _ o' k c used find =>
      exact .of_same (holds_same find (by simp [get?, used])) rfl
  | @raised _ k entry used find =>
      exact .of_same (holds_same find (by simp [get?, used])) rfl
  | lowered used find => exact truthful_lowered ht used find o
  | drained find =>
      have hafter : ¬t'.Holds o := by
        rintro ⟨h, hh⟩
        simp [get?, find] at hh
      have htold := farewells_leftovers ht o
      by_cases hheld : t.holders.contains o
      · have hbefore := ht.holds_iff.mpr hheld
        rw [if_pos hheld] at htold
        exact ⟨fun hb => absurd hbefore hb, fun _ _ => htold,
          fun hs => absurd (hs.mp hbefore) hafter⟩
      · have hbefore : ¬t.Holds o := fun hb => hheld (ht.holds_iff.mp hb)
        rw [if_neg hheld] at htold
        exact .of_same (iff_of_false hbefore hafter) htold

-- The requests that the table refuses, and how.
def Refuses (t : References) : Request → Fault → Prop
  | .insertText _, f => t.live = t.capacity ∧ f = .referencesFull t.capacity
  | .acquire o, f => ¬t.Holds o ∧ t.live = t.capacity ∧ f = .referencesFull t.capacity
  | .addRef h, f | .release h, f => t.get? h = none ∧ f = .deadHandle h
  | .drain, _ => False

theorem allocate_error_iff (ht : t.Sound) (hle : t.slots.size ≤ t.capacity) (p : Payload) :
    t.allocate p = .error f ↔ t.live = t.capacity ∧ f = .referencesFull t.capacity := by
  rw [← ht.full_iff hle]
  constructor
  · intro ha
    obtain ⟨rfl, hfree, hcap⟩ := allocate_error ha
    exact ⟨⟨hfree, hcap⟩, rfl⟩
  · rintro ⟨⟨hfree, hcap⟩, rfl⟩
    simp [allocate, hfree, Nat.not_lt.mpr hcap]

theorem map_error_iff {α β : Type} {x : Except Fault α} {g : α → β} :
    x.map g = .error f ↔ x = .error f := by
  cases x <;> simp [Except.map]

theorem get?_eq_none : t.get? h = none ↔ t.find? h = none :=
  Option.map_eq_none_iff

theorem serve_error_iff (ht : t.Sound) (hle : t.slots.size ≤ t.capacity) (r : Request) :
    t.serve r = .error f ↔ t.Refuses r f := by
  cases r with
  | insertText s => exact map_error_iff.trans (allocate_error_iff ht hle _)
  | acquire o =>
      refine map_error_iff.trans ?_
      rw [Refuses, ht.holds_iff, Std.TreeMap.contains_eq_isSome_getElem?]
      cases hh : t.holders[o]? with
      | some h =>
          obtain ⟨e, he, -⟩ := Option.map_eq_some_iff.mp ((ht.holder o h).mp hh)
          rw [acquire_held hh, map_error_iff]
          simp [addRef, he]
      | none =>
          rw [acquire_unheld hh, map_error_iff, allocate_error_iff ht hle]
          simp
  | addRef h =>
      refine map_error_iff.trans ?_
      rw [Refuses, get?_eq_none]
      cases he : t.find? h <;> simp [addRef, he, eq_comm]
  | release h =>
      refine map_error_iff.trans ?_
      rw [Refuses, get?_eq_none]
      cases he : t.find? h with
      | none => simp [release, he, eq_comm]
      | some e => simp only [release, he]; split <;> simp
  | drain => simp [serve, Refuses]

-- What a request gets of the table as it stands, and leaves of it.
structure Serves (t : References) (r : Request) : Prop where
  inPlace : (perform r).run t = InPlace.ofExcept t (t.serve r)
  refuses : ∀ f, (t.event r).answer = .error f ↔ t.Refuses r f
  refused : ∀ f, (t.event r).answer = .error f → t.after r = t ∧ (t.event r).told = []
  record : (t.after r).hooks.toList = t.hooks.toList ++ (t.event r).told
  told : ∀ o, Truthful o (t.Holds o) ((t.after r).Holds o) (t.event r).told
  handle : ∀ h, (t.event r).answer = .ok (.handle h) → (t.after r).get? h = r.payload?
  kept : ∀ h, t.get? h ≠ none → (t.after r).get? h ≠ none → (t.after r).get? h = t.get? h

-- What the table shows of all that was asked of it.
structure Represents (t : References) (capacity : Nat) (log : List Event) : Prop where
  sound : t.Sound
  bounded : t.slots.size ≤ capacity
  once : ∀ (o : ObjectRef) (h k : Nat),
    t.get? h = some (.object o) → t.get? k = some (.object o) → h = k
  apart : ∀ (o o' : ObjectRef) (h : Nat), t.holders[o]? = some h → t.holders[o']? = some h → o = o'
  live : t.live = (List.range t.slots.size).countP fun h => (t.find? h).isSome
  count : ∀ h c, t.count? h = some c ↔ 0 < c ∧ Standing log h c

theorem Change.handle (hc : Change t r (.handle h) told t') : t'.get? h = r.payload? := by
  cases hc with
  | text _ find | entered _ _ find | again _ find => simp [get?, find, Request.payload?]

theorem Change.kept (hc : Change t r a told t') (hb : t.get? h ≠ none) (ha : t'.get? h ≠ none) :
    t'.get? h = t.get? h := by
  cases hc with
  | @text _ _ k empty find | @entered _ _ k empty _ find =>
      have hne : h ≠ k := by
        rintro rfl
        exact hb (get?_eq_none.mpr empty)
      simp [get?, find, hne]
  | @again _ _ k _ used find | @raised _ k _ used find =>
      by_cases hk : h = k <;> simp [get?, find, used, hk]
  | @lowered _ k entry used find =>
      rw [get?_of_entry find] at ha ⊢
      by_cases hk : h = k
      · simp only [hk, if_true, References.lowered] at ha ⊢
        split at ha
        · simp [*, get?]
        · exact absurd rfl ha
      · rw [if_neg hk]
  | drained find => exact absurd (get?_eq_none.mpr (find h)) ha

theorem serves (ht : t.Sound) (hle : t.slots.size ≤ t.capacity) (r : Request) : t.Serves r := by
  have hrefuses : ∀ f, (t.event r).answer = .error f ↔ t.Refuses r f := by
    intro f
    rw [← serve_error_iff ht hle, event_answer]
    exact map_error_iff
  cases hr : t.serve r with
  | error f =>
      have hafter := after_of_error hr
      have hevent := event_of_error hr
      refine ⟨perform_run r t, hrefuses, fun _ _ => ⟨hafter, by rw [hevent]⟩,
        by simp [hafter, hevent], fun o => ?_, fun h hh => ?_, fun h _ _ => by rw [hafter]⟩
      · rw [hafter, hevent]
        exact .of_same Iff.rfl rfl
      · rw [hevent] at hh
        cases hh
  | ok p =>
      obtain ⟨a, t'⟩ := p
      obtain ⟨-, -, told, hhooks, hchange⟩ := serving_of_ok ht hr
      have hafter := after_of_ok hr
      have hevent := event_of_ok hr hhooks
      refine ⟨perform_run r t, hrefuses, fun f hf => ?_, by simp [hafter, hevent, hhooks],
        fun o => ?_, fun h hh => ?_, fun h hb ha => ?_⟩
      · rw [hevent] at hf
        cases hf
      · rw [hafter, hevent]
        exact hchange.truthful ht o
      · rw [hevent] at hh
        obtain rfl := Except.ok.inj hh
        rw [hafter]
        exact hchange.handle
      · rw [hafter] at ha ⊢
        exact hchange.kept hb ha

theorem count?_eq_some (ht : t.Sound) {c : Nat} : t.count? h = some c ↔ 0 < c ∧ t.uses h = c := by
  cases he : t.find? h with
  | none =>
      have hcount : t.count? h = none := by simp [count?, he]
      rw [uses, hcount]
      simp
      omega
  | some e =>
      have hcount : t.count? h = some e.count := by simp [count?, he]
      have hpos := ht.positive h e he
      rw [uses, hcount]
      simp only [Option.some.injEq, Option.getD_some]
      omega

-- After any requests, of any handles and refused or not, the three views of the table agree with
-- each other and with the record; and so the next request finds it.
theorem represents_afterAll (capacity : Nat) (requests : List Request) :
    ((ofCapacity capacity).afterAll requests).Represents capacity
      ((ofCapacity capacity).log requests) ∧
    ∀ r, ((ofCapacity capacity).afterAll requests).Serves r := by
  have hempty := sound_ofCapacity capacity
  have hs := sound_afterAll hempty requests
  obtain ⟨hcap, hsize⟩ := within_afterAll hempty requests
  have hle := hsize (Nat.zero_le capacity)
  refine ⟨⟨hs, hle, fun o h k => hs.once, fun o o' h => hs.apart, hs.live_eq, fun h c => ?_⟩,
    serves hs (hle.trans_eq hcap.symm)⟩
  rw [count?_eq_some hs, and_congr_right_iff]
  intro hpos
  constructor
  · intro hu
    subst hu
    exact standing_of_uses hempty rfl requests (Nat.ne_of_gt hpos)
  · exact uses_of_standing hempty

end HostScript.References
