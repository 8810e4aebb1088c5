import HostScript.Proofs.Compile.Growth

namespace HostScript

-- Whose a slot is: a variable's that a script names, or one of a lowered loop's own. Those no script
-- can name, and numbers tell them apart.
inductive Owner where
  | named (name : String)
  | hidden (word : String) (number : Nat)
  deriving DecidableEq

namespace Owner

-- The name under which a slot is kept.
def name : Owner → String
  | .named name => name
  | .hidden word number => hiddenName word number

def isHidden : Owner → Bool
  | .named _ => false
  | .hidden _ _ => true

def number : Owner → Nat
  | .named _ => 0
  | .hidden _ number => number

end Owner

-- A place in the code where a slot is read or written.
structure Access where
  owner : Owner
  writes : Bool

namespace Access

def read (owner : Owner) : Access :=
  ⟨owner, false⟩

def write (owner : Owner) : Access :=
  ⟨owner, true⟩

end Access

namespace Expr

mutual

-- The variables that are read for the value of an expression, in the order of the code. Arguments
-- of a constant or a property are not evaluated.
def accesses : Expr → List Access
  | .literal _ _ => []
  | .name _ x => [.read (.named x)]
  | .static _ _ args binding =>
    match binding with
    | .method _ => accessesOfAll args
    | _ => []
  | .member _ target _ args binding =>
    match binding with
    | .property _ => target.accesses
    | _ => target.accesses ++ accessesOfAll args
  | .new _ _ args _ => accessesOfAll args
  | .binary _ _ lhs rhs => lhs.accesses ++ rhs.accesses
  | .unary _ _ operand => operand.accesses
  | .cast _ _ operand => operand.accesses

def accessesOfAll : List Expr → List Access
  | [] => []
  | e :: rest => e.accesses ++ accessesOfAll rest

end

end Expr

def Change.accesses : Change → List Access
  | .compound _ value => value.accesses
  | .increment | .decrement => []

def VarStmt.accesses : VarStmt → List Access
  | .declare _ name value => value.accesses ++ [.write (.named name)]
  | .update _ name how _ _ =>
    .read (.named name) :: (how.accesses ++ [.write (.named name)])

namespace Stmt

-- Whether the rounds of a loop are counted by the machine, so that it needs no slots.
def countedByMachine (level : Nat) (body : List Stmt) : Bool :=
  level ≥ 1 && !Emit.anyEscapes body

-- The slots of a `foreach` and of a lowered `loop` when `k` numbers were given out before.
def eachOwners (k : Nat) : List Owner :=
  [.hidden "iter" (k + 1), .hidden "count" (k + 2), .hidden "index" (k + 3)]

def countOwners (k : Nat) : List Owner :=
  [.hidden "limit" (k + 1), .hidden "index" (k + 2)]

mutual

-- The slots of each lowered loop in a statement when `k` numbers were given out before, outer loops
-- first.
def owned (level k : Nat) : Stmt → List (List Owner)
  | .cond _ _ body rest =>
    let first := ownedByAll level k body
    first ++ ownedByBranches level (k + first.flatten.length) rest
  | .whileLoop _ _ body | .forLoop _ _ _ _ body => ownedByAll level k body
  | .eachLoop _ _ _ body _ => eachOwners k :: ownedByAll level (k + 3) body
  | .countLoop _ _ body =>
    if countedByMachine level body then ownedByAll level k body
    else countOwners k :: ownedByAll level (k + 2) body
  | _ => []

def ownedByAll (level k : Nat) : List Stmt → List (List Owner)
  | [] => []
  | s :: rest =>
    let first := s.owned level k
    first ++ ownedByAll level (k + first.flatten.length) rest

def ownedByBranches (level k : Nat) : Branches → List (List Owner)
  | .done => []
  | .otherwise body => ownedByAll level k body
  | .elseIf _ body rest =>
    let first := ownedByAll level k body
    first ++ ownedByBranches level (k + first.flatten.length) rest

end

-- The accesses of a loop that counts one slot up to another.
def countedAccesses (index limit : Owner) (item body : List Access) : List Access :=
  [.write index, .read index, .read limit] ++ item ++ body ++ [.read index, .write index]

mutual

-- What a statement reads and writes, in the order of the code, when `k` numbers were given out
-- before.
def accesses (level k : Nat) : Stmt → List Access
  | .var v => v.accesses
  | .cond _ test body rest =>
    test.accesses ++ accessesOfAll level k body ++
      accessesOfBranches level (k + (ownedByAll level k body).flatten.length) rest
  | .whileLoop _ test body => test.accesses ++ accessesOfAll level k body
  | .forLoop _ init test step body =>
    init.accesses ++ test.accesses ++ accessesOfAll level k body ++ step.accesses
  | .eachLoop _ item source body _ =>
    let iter := .hidden "iter" (k + 1)
    let count := .hidden "count" (k + 2)
    let index := .hidden "index" (k + 3)
    source.accesses ++ [.write iter, .read iter, .write count] ++
      countedAccesses index count [.read iter, .read index, .write (.named item)]
        (accessesOfAll level (k + 3) body) ++ [.write iter]
  | .countLoop _ count body =>
    if countedByMachine level body then count.accesses ++ accessesOfAll level k body
    else
      let limit := .hidden "limit" (k + 1)
      let index := .hidden "index" (k + 2)
      count.accesses ++ [.write limit] ++
        countedAccesses index limit [] (accessesOfAll level (k + 2) body)
  | .ret _ value => (value.map (·.accesses)).getD []
  | .call _ target => target.accesses
  | .assign _ target value =>
    match target with
    | .member _ owner _ _ _ => owner.accesses ++ value.accesses
    | _ => value.accesses
  | _ => []

def accessesOfAll (level k : Nat) : List Stmt → List Access
  | [] => []
  | s :: rest =>
    s.accesses level k ++ accessesOfAll level (k + (s.owned level k).flatten.length) rest

def accessesOfBranches (level k : Nat) : Branches → List Access
  | .done => []
  | .otherwise body => accessesOfAll level k body
  | .elseIf test body rest =>
    test.accesses ++ accessesOfAll level k body ++
      accessesOfBranches level (k + (ownedByAll level k body).flatten.length) rest

end

end Stmt

-- Slots of the compiler's own with the numbers behind `k`, one for each.
structure Owner.InTurn (k : Nat) (l : List Owner) : Prop where
  numbers : l.map Owner.number = List.range' (k + 1) l.length
  hidden : ∀ o ∈ l, ∃ word ∈ hiddenWords, ∃ number, o = .hidden word number

namespace Owner.InTurn

variable {k : Nat} {l l' : List Owner}

theorem append (h : InTurn k l) (h' : InTurn (k + l.length) l') : InTurn k (l ++ l') where
  numbers := by
    rw [List.map_append, h.numbers, h'.numbers, Nat.add_right_comm k, List.range'_append_1,
      List.length_append]
  hidden := List.forall_mem_append.mpr ⟨h.hidden, h'.hidden⟩

theorem nodup (h : InTurn k l) : l.Nodup :=
  .of_map Owner.number (h.numbers ▸ List.nodup_range')

end Owner.InTurn

namespace Stmt

theorem inTurn_eachOwners (k : Nat) : Owner.InTurn k (eachOwners k) :=
  ⟨rfl, by simp [eachOwners, hiddenWords]⟩

theorem inTurn_countOwners (k : Nat) : Owner.InTurn k (countOwners k) :=
  ⟨rfl, by simp [countOwners, hiddenWords]⟩

mutual

theorem inTurn_owned (level k : Nat) (s : Stmt) : Owner.InTurn k (s.owned level k).flatten := by
  cases s with
  | cond offset test body rest =>
      simpa [owned] using
        (inTurn_ownedByAll level k body).append (inTurn_ownedByBranches level _ rest)
  | whileLoop offset test body => exact inTurn_ownedByAll level k body
  | forLoop offset init test step body => exact inTurn_ownedByAll level k body
  | eachLoop offset item source body how =>
      simpa [owned] using (inTurn_eachOwners k).append (inTurn_ownedByAll level (k + 3) body)
  | countLoop offset count body =>
      simp only [owned]
      split
      · exact inTurn_ownedByAll level k body
      · simpa using (inTurn_countOwners k).append (inTurn_ownedByAll level (k + 2) body)
  | _ => exact ⟨rfl, by simp [owned]⟩

theorem inTurn_ownedByAll (level k : Nat) (ss : List Stmt) :
    Owner.InTurn k (ownedByAll level k ss).flatten := by
  cases ss with
  | nil => exact ⟨rfl, by simp [ownedByAll]⟩
  | cons s rest =>
      simpa [ownedByAll] using (inTurn_owned level k s).append (inTurn_ownedByAll level _ rest)

theorem inTurn_ownedByBranches (level k : Nat) (b : Branches) :
    Owner.InTurn k (ownedByBranches level k b).flatten := by
  cases b with
  | done => exact ⟨rfl, by simp [ownedByBranches]⟩
  | otherwise body => exact inTurn_ownedByAll level k body
  | elseIf test body rest =>
      simpa [ownedByBranches] using
        (inTurn_ownedByAll level k body).append (inTurn_ownedByBranches level _ rest)

end

end Stmt

-- A variable that a script can name, or a slot of the compiler's own that is one of these.
def Owner.Among (own : List Owner) : Owner → Prop
  | .named name => PlainName name
  | .hidden word number => .hidden word number ∈ own

theorem PlainName.ne_hiddenName {name : String} (h : PlainName name) (word : String)
    (number : Nat) : name ≠ hiddenName word number :=
  fun heq => not_plainName_hiddenName word number (heq ▸ h)

-- Names tell slots apart: no script can write the name of one of the compiler's own.
theorem Owner.Among.eq_of_name {k : Nat} {own : List Owner} (hown : Owner.InTurn k own)
    {o o' : Owner} (h : o.Among own) (h' : o'.Among own) (hname : o.name = o'.name) : o = o' := by
  cases o with
  | named name =>
      cases o' with
      | named name' => exact congrArg _ hname
      | hidden word' number' => exact absurd hname (PlainName.ne_hiddenName h _ _)
  | hidden word number =>
      cases o' with
      | named name' => exact absurd hname.symm (PlainName.ne_hiddenName h' _ _)
      | hidden word' number' =>
          obtain ⟨_, hw, _, heq⟩ := hown.hidden _ h
          obtain ⟨_, hw', _, heq'⟩ := hown.hidden _ h'
          cases heq
          cases heq'
          obtain ⟨rfl, rfl⟩ := hiddenName_inj hw hw' hname
          rfl

mutual

theorem Expr.accesses_among (own : List Owner) {e : Expr} (h : e.Plain) :
    ∀ a ∈ e.accesses, a.owner.Among own := by
  cases e with
  | literal m value => simp [accesses]
  | name m x => simpa [accesses, Access.read, Owner.Among, Expr.Plain] using h
  | static m x args binding =>
      cases binding with
      | method id => exact accessesOfAll_among own h
      | _ => simp [accesses]
  | member m target x args binding =>
      have htarget := accesses_among own h.1
      cases binding with
      | property id => exact htarget
      | _ => exact List.forall_mem_append.mpr ⟨htarget, accessesOfAll_among own h.2⟩
  | new m typeName args binding => exact accessesOfAll_among own h
  | binary m op lhs rhs =>
      exact List.forall_mem_append.mpr ⟨accesses_among own h.1, accesses_among own h.2⟩
  | unary m op operand => exact accesses_among (e := operand) own h
  | cast m typeName operand => exact accesses_among (e := operand) own h

theorem Expr.accessesOfAll_among (own : List Owner) {es : List Expr} (h : Expr.AllPlain es) :
    ∀ a ∈ accessesOfAll es, a.owner.Among own := by
  cases es with
  | nil => simp [accessesOfAll]
  | cons e rest =>
      exact List.forall_mem_append.mpr ⟨accesses_among own h.1, accessesOfAll_among own h.2⟩

end


theorem Change.accesses_among (own : List Owner) {how : Change} (h : how.Plain) :
    ∀ a ∈ how.accesses, a.owner.Among own := by
  cases how with
  | compound op value => exact Expr.accesses_among own h
  | _ => simp [accesses]

theorem VarStmt.accesses_among (own : List Owner) {v : VarStmt} (h : v.Plain) :
    ∀ a ∈ v.accesses, a.owner.Among own := by
  obtain ⟨offset, name, value⟩ | ⟨offset, name, how, current, result⟩ := v
  · exact List.forall_mem_append.mpr ⟨Expr.accesses_among own h.2, by
      simpa [Access.write, Owner.Among] using h.1⟩
  · refine List.forall_mem_cons.mpr ⟨h.1, ?_⟩
    exact List.forall_mem_append.mpr ⟨Change.accesses_among own h.2, by
      simpa [Access.write, Owner.Among] using h.1⟩

namespace Stmt

variable {own : List Owner}

theorem countedAccesses_among {index limit : Owner} {item body : List Access}
    (hindex : index.Among own) (hlimit : limit.Among own)
    (hitem : ∀ a ∈ item, a.owner.Among own) (hbody : ∀ a ∈ body, a.owner.Among own) :
    ∀ a ∈ countedAccesses index limit item body, a.owner.Among own := by
  simp only [countedAccesses, List.forall_mem_append]
  refine ⟨⟨⟨?_, hitem⟩, hbody⟩, ?_⟩
  · simp [Access.read, Access.write, hindex, hlimit]
  · simp [Access.read, Access.write, hindex]

mutual

-- Statements use plain variables, and the slots of the loops in them.
theorem accesses_among {level k : Nat} {s : Stmt} (h : s.Plain)
    (hown : (s.owned level k).flatten ⊆ own) : ∀ a ∈ s.accesses level k, a.owner.Among own := by
  cases s with
  | var v => exact VarStmt.accesses_among own h
  | cond offset test body rest =>
      simp only [owned, List.flatten_append, List.append_subset] at hown
      simp only [accesses, List.forall_mem_append]
      exact ⟨⟨Expr.accesses_among own h.1, accessesOfAll_among h.2.1 hown.1⟩,
        accessesOfBranches_among h.2.2 hown.2⟩
  | whileLoop offset test body =>
      simp only [accesses, List.forall_mem_append]
      exact ⟨Expr.accesses_among own h.1, accessesOfAll_among h.2 hown⟩
  | forLoop offset init test step body =>
      simp only [accesses, List.forall_mem_append]
      exact ⟨⟨⟨VarStmt.accesses_among own h.1, Expr.accesses_among own h.2.1⟩,
        accessesOfAll_among h.2.2.2 hown⟩, VarStmt.accesses_among own h.2.2.1⟩
  | eachLoop offset item source body how =>
      simp only [owned, eachOwners, List.flatten_cons, List.append_subset, List.cons_subset] at hown
      obtain ⟨⟨hiter, hcount, hindex, -⟩, hbody⟩ := hown
      simp only [accesses, List.forall_mem_append]
      refine ⟨⟨⟨Expr.accesses_among own h.2.1, ?_⟩, countedAccesses_among hindex hcount ?_
        (accessesOfAll_among h.2.2 hbody)⟩, ?_⟩
      · simp [Access.read, Access.write, Owner.Among, hiter, hcount]
      · simp [Access.read, Access.write, Owner.Among, hiter, hindex, h.1]
      · simp [Access.write, Owner.Among, hiter]
  | countLoop offset count body =>
      simp only [accesses]
      split
      · rename_i hslots
        simp only [owned, hslots, if_true] at hown
        exact List.forall_mem_append.mpr
          ⟨Expr.accesses_among own h.1, accessesOfAll_among h.2 hown⟩
      · rename_i hslots
        simp only [owned, if_neg hslots, countOwners, List.flatten_cons, List.append_subset,
          List.cons_subset] at hown
        obtain ⟨⟨hlimit, hindex, -⟩, hbody⟩ := hown
        simp only [List.forall_mem_append]
        refine ⟨⟨Expr.accesses_among own h.1, ?_⟩, countedAccesses_among hindex hlimit (by simp)
          (accessesOfAll_among h.2 hbody)⟩
        simp [Access.write, Owner.Among, hlimit]
  | ret offset value =>
      cases value with
      | none => simp [accesses]
      | some e => exact Expr.accesses_among own (h e rfl)
  | call offset target => exact Expr.accesses_among own h
  | assign offset target value =>
      have hvalue := Expr.accesses_among own h.2
      cases target with
      | member m owner name args binding =>
          exact List.forall_mem_append.mpr ⟨Expr.accesses_among own h.1.1, hvalue⟩
      | _ => exact hvalue
  | _ => simp [accesses]

theorem accessesOfAll_among {level k : Nat} {ss : List Stmt} (h : AllPlain ss)
    (hown : (ownedByAll level k ss).flatten ⊆ own) :
    ∀ a ∈ accessesOfAll level k ss, a.owner.Among own := by
  cases ss with
  | nil => simp [accessesOfAll]
  | cons s rest =>
      simp only [ownedByAll, List.flatten_append, List.append_subset] at hown
      exact List.forall_mem_append.mpr
        ⟨accesses_among h.1 hown.1, accessesOfAll_among h.2 hown.2⟩

theorem accessesOfBranches_among {level k : Nat} {b : Branches} (h : BranchesPlain b)
    (hown : (ownedByBranches level k b).flatten ⊆ own) :
    ∀ a ∈ accessesOfBranches level k b, a.owner.Among own := by
  cases b with
  | done => simp [accessesOfBranches]
  | otherwise body => exact accessesOfAll_among h hown
  | elseIf test body rest =>
      simp only [ownedByBranches, List.flatten_append, List.append_subset] at hown
      simp only [accessesOfBranches, List.forall_mem_append]
      exact ⟨⟨Expr.accesses_among own h.1, accessesOfAll_among h.2.1 hown.1⟩,
        accessesOfBranches_among h.2.2 hown.2⟩

end

theorem mem_countedAccesses {index limit : Owner} {item body : List Access} {o : Owner}
    (h : o = index ∨ o = limit ∨ o ∈ body.map (·.owner)) :
    o ∈ (countedAccesses index limit item body).map (·.owner) := by
  simp only [countedAccesses, List.map_append, List.mem_append]
  rcases h with rfl | rfl | h
  · exact .inr (by simp [Access.read])
  · exact .inl (.inl (.inl (by simp [Access.read])))
  · exact .inl (.inr h)

mutual

-- A loop uses all of its slots.
theorem owned_reached (level k : Nat) (s : Stmt) :
    (s.owned level k).flatten ⊆ (s.accesses level k).map (·.owner) := by
  cases s with
  | cond offset test body rest =>
      simp only [owned, accesses, List.flatten_append, List.map_append]
      refine List.append_subset.mpr ⟨?_, ?_⟩
      · exact List.subset_append_of_subset_left _
          (List.subset_append_of_subset_right _ (ownedByAll_reached level k body))
      · exact List.subset_append_of_subset_right _ (ownedByBranches_reached level _ rest)
  | whileLoop offset test body =>
      simp only [owned, accesses, List.map_append]
      exact List.subset_append_of_subset_right _ (ownedByAll_reached level k body)
  | forLoop offset init test step body =>
      simp only [owned, accesses, List.map_append]
      exact List.subset_append_of_subset_left _
        (List.subset_append_of_subset_right _ (ownedByAll_reached level k body))
  | eachLoop offset item source body how =>
      intro o ho
      simp only [accesses, List.map_append, List.mem_append]
      simp only [owned, List.flatten_cons, eachOwners, List.mem_append, List.mem_cons,
        List.not_mem_nil, or_false] at ho
      obtain (rfl | rfl | rfl) | ho := ho
      · exact .inl (.inl (.inr (by simp [Access.write])))
      · exact .inl (.inr (mem_countedAccesses (.inr (.inl rfl))))
      · exact .inl (.inr (mem_countedAccesses (.inl rfl)))
      · exact .inl (.inr (mem_countedAccesses (.inr (.inr (ownedByAll_reached level _ body ho)))))
  | countLoop offset count body =>
      simp only [owned, accesses]
      split
      · rw [List.map_append]
        exact List.subset_append_of_subset_right _ (ownedByAll_reached level k body)
      · intro o ho
        simp only [List.map_append, List.mem_append]
        simp only [List.flatten_cons, countOwners, List.mem_append, List.mem_cons,
          List.not_mem_nil, or_false] at ho
        obtain (rfl | rfl) | ho := ho
        · exact .inr (mem_countedAccesses (.inr (.inl rfl)))
        · exact .inr (mem_countedAccesses (.inl rfl))
        · exact .inr (mem_countedAccesses (.inr (.inr (ownedByAll_reached level _ body ho))))
  | _ => simp [owned]

theorem ownedByAll_reached (level k : Nat) (ss : List Stmt) :
    (ownedByAll level k ss).flatten ⊆ (accessesOfAll level k ss).map (·.owner) := by
  cases ss with
  | nil => simp [ownedByAll]
  | cons s rest =>
      simp only [ownedByAll, accessesOfAll, List.flatten_append, List.map_append]
      exact List.append_subset.mpr
        ⟨List.subset_append_of_subset_left _ (owned_reached level k s),
          List.subset_append_of_subset_right _ (ownedByAll_reached level _ rest)⟩

theorem ownedByBranches_reached (level k : Nat) (b : Branches) :
    (ownedByBranches level k b).flatten ⊆ (accessesOfBranches level k b).map (·.owner) := by
  cases b with
  | done => simp [ownedByBranches]
  | otherwise body => exact ownedByAll_reached level k body
  | elseIf test body rest =>
      simp only [ownedByBranches, accessesOfBranches, List.flatten_append, List.map_append]
      refine List.append_subset.mpr ⟨?_, ?_⟩
      · exact List.subset_append_of_subset_left _
          (List.subset_append_of_subset_right _ (ownedByAll_reached level k body))
      · exact List.subset_append_of_subset_right _ (ownedByBranches_reached level _ rest)

end

end Stmt

end HostScript
