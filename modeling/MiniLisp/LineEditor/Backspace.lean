import MiniLisp.LineEditor.Cluster

/-!
# Backspaces

A backspace in a line takes back the cluster before it, and the backspaces themselves leave no
trace.  A line without one stays as it is (`applyBackspaces_of_not_mem`).
-/

namespace MiniLisp
namespace LineEditor

def backspace : Char := '\x08'

/-- A line while it is written: its characters, the last first, and the size in bytes of each of
its clusters, the last first.  A size is kept in one byte, so that it is known modulo 256. -/
structure Draft where
  written : List Char := []
  sizes : List UInt8 := []

def byteSize (text : List Char) : Nat :=
  text.foldl (fun size c => size + c.utf8Size) 0

/-- What is left of a text, given last character first, without its last characters: those that fit
into the given number of bytes. -/
def dropBytes (size : Nat) : List Char → List Char
  | [] => []
  | c :: rest => if c.utf8Size ≤ size then dropBytes (size - c.utf8Size) rest else c :: rest

namespace Draft

def write (draft : Draft) (cluster : List Char) : Draft :=
  { written := cluster.reverse ++ draft.written
    sizes := UInt8.ofNat (byteSize cluster) :: draft.sizes }

def takeBack (draft : Draft) : Draft :=
  match draft.sizes with
  | [] => draft
  | size :: sizes => { written := dropBytes size.toNat draft.written, sizes }

def step (draft : Draft) (cluster : List Char) : Draft :=
  if cluster = [backspace] then draft.takeBack else draft.write cluster

end Draft

def applyBackspaces (line : List Char) : List Char :=
  ((clusters line).foldl Draft.step {}).written.reverse

theorem written_foldl_step (parts : List (List Char)) (draft : Draft)
    (h : backspace ∉ parts.flatten) :
    (parts.foldl Draft.step draft).written = parts.flatten.reverse ++ draft.written := by
  induction parts generalizing draft with
  | nil => rfl
  | cons part rest ih =>
      rw [List.flatten_cons, List.mem_append, not_or] at h
      have hstep : draft.step part = draft.write part := by
        rw [Draft.step, if_neg]
        rintro rfl
        exact h.1 (List.mem_singleton.mpr rfl)
      rw [List.foldl_cons, ih _ h.2, hstep, Draft.write, List.flatten_cons, List.reverse_append,
        List.append_assoc]

/-- A line without backspaces stays as it is. -/
theorem applyBackspaces_of_not_mem (line : List Char) (h : backspace ∉ line) :
    applyBackspaces line = line := by
  rw [applyBackspaces, written_foldl_step _ _ (by rwa [flatten_clusters]), flatten_clusters]
  exact (congrArg List.reverse (List.append_nil _)).trans (List.reverse_reverse line)

end LineEditor
end MiniLisp
