/-!
# Environments

An environment is a chain of frames.  The frames themselves are in the store; an environment says
which of them are meant, and in which order.  What encloses a frame never changes after the frame is
made, so that it may be told by the environment and need not be kept in the frame: environments with
the same innermost frame are the same.
-/

namespace MiniLisp

abbrev FrameId :=
  Nat

/-- An environment is a chain of frames: the innermost frame and those that enclose it, from the
inside out. -/
structure Env where
  innermost : FrameId
  enclosing : List FrameId
  deriving DecidableEq, Repr, Inhabited

namespace Env

def chain (env : Env) : List FrameId :=
  env.innermost :: env.enclosing

def depth (env : Env) : Nat :=
  env.chain.length

def sameFrame (a b : Env) : Bool :=
  a.innermost == b.innermost

/-- How an environment is shown: only its depth, since values in it may lead back to it. -/
def shown (env : Env) : String :=
  "<environment depth=" ++ env.depth.repr ++ ">"

def push (frame : FrameId) (outer : Env) : Env :=
  ⟨frame, outer.chain⟩

@[simp] theorem chain_push (frame : FrameId) (outer : Env) :
    (push frame outer).chain = frame :: outer.chain :=
  rfl

theorem eq_of_chain_eq {env env' : Env} (h : env.chain = env'.chain) : env = env' := by
  cases env
  cases env'
  cases h
  rfl

end Env

end MiniLisp
