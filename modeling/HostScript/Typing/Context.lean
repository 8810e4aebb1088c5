import HostScript.Ty

namespace HostScript

inductive FrameKind where
  | global
  -- one branch of an `if`, which may or may not run
  | condition
  -- the header and body of a loop
  | loop
  deriving DecidableEq, Repr

-- The variables bound since a block was entered, each once.
structure Frame where
  kind : FrameKind
  bindings : List (String × Ty) := []
  deriving Repr

def Frame.set (f : Frame) (name : String) (ty : Ty) : Frame :=
  { f with bindings := (name, ty) :: f.bindings.filter (·.1 ≠ name) }

-- What is known of the variables at a point of the script: the frames around it, innermost first.
structure TypeContext where
  frames : List Frame
  deriving Repr

namespace TypeContext

def initial : TypeContext :=
  ⟨[{ kind := .global }]⟩

def push (ctx : TypeContext) (kind : FrameKind) : TypeContext :=
  ⟨{ kind := kind } :: ctx.frames⟩

-- The innermost binding of a name.
def lookup (ctx : TypeContext) (name : String) : Option Ty :=
  ctx.frames.findSome? (·.bindings.lookup name)

-- Binds a name in the innermost frame.
def set (ctx : TypeContext) (name : String) (ty : Ty) : TypeContext :=
  match ctx.frames with
  | [] => ctx
  | f :: rest => ⟨f.set name ty :: rest⟩

-- What one binding of a frame that is left means for the frames around it. A branch that may not
-- have run leaves nothing known of a variable unless it agrees with what was known before; a loop
-- leaves the type its body assigned last.
def merge (kind : FrameKind) (ctx : TypeContext) (binding : String × Ty) : TypeContext :=
  match kind with
  | .condition =>
    if ctx.lookup binding.1 = some binding.2 then ctx else ctx.set binding.1 .dynamic
  | .loop | .global => ctx.set binding.1 binding.2

-- Leaves the innermost frame. The outermost one always stays.
def pop (ctx : TypeContext) : TypeContext :=
  match ctx.frames with
  | f :: g :: rest => f.bindings.foldl (merge f.kind) ⟨g :: rest⟩
  | _ => ctx

def inLoop (ctx : TypeContext) : Bool :=
  ctx.frames.any (·.kind = .loop)

def depth (ctx : TypeContext) : Nat :=
  ctx.frames.length

end TypeContext

end HostScript
