import MiniLisp.LineEditor.Cluster.Class

/-!
# Clusters

A cluster is what a reader takes for one character: a letter with its accents, a flag made of two
letters, a family of joined pictographs.  These are the extended grapheme clusters of Unicode.  A
text is the concatenation of its clusters (`flatten_clusters`).
-/

namespace MiniLisp
namespace LineEditor

/-- Whether a cluster ends in a pictograph and marks on it.  The cluster is given last character
first, here and below. -/
def endsInPictograph (cluster : List Char) : Bool :=
  match cluster.dropWhile fun c => clusterClass c = .extending with
  | [] => false
  | c :: _ => clusterClass c = .pictograph

def endsInLinkedConsonant (cluster : List Char) : Bool :=
  (cluster.takeWhile isConjunctMark).any isConjunctLinker &&
    match cluster.dropWhile isConjunctMark with
    | [] => false
    | c :: _ => isConjunctConsonant c

def endsInHalfFlag (cluster : List Char) : Bool :=
  (cluster.takeWhile fun c => clusterClass c = .regional).length % 2 = 1

def continues (cluster : List Char) (c : Char) : Bool :=
  match cluster with
  | [] => true
  | last :: earlier =>
      match clusterClass last, clusterClass c with
      | .carriageReturn, .lineFeed => true
      | .carriageReturn, _ | .lineFeed, _ | .control, _ => false
      | _, .carriageReturn | _, .lineFeed | _, .control => false
      | _, .extending | _, .joiner | _, .spacing | .prepended, _ => true
      | .leadingJamo, .leadingJamo | .leadingJamo, .vowelJamo => true
      | .leadingJamo, .openSyllable | .leadingJamo, .closedSyllable => true
      | .openSyllable, .vowelJamo | .openSyllable, .trailingJamo => true
      | .vowelJamo, .vowelJamo | .vowelJamo, .trailingJamo => true
      | .closedSyllable, .trailingJamo | .trailingJamo, .trailingJamo => true
      | .joiner, .pictograph => endsInPictograph earlier
      | .regional, .regional => endsInHalfFlag cluster
      | _, _ => isConjunctConsonant c && endsInLinkedConsonant cluster

def clustersAfter (cluster : List Char) : List Char → List (List Char)
  | [] => [cluster.reverse]
  | c :: rest =>
      if continues cluster c then
        clustersAfter (c :: cluster) rest
      else
        cluster.reverse :: clustersAfter [c] rest

def clusters : List Char → List (List Char)
  | [] => []
  | c :: rest => clustersAfter [c] rest

theorem flatten_clustersAfter (text cluster : List Char) :
    (clustersAfter cluster text).flatten = cluster.reverse ++ text := by
  induction text generalizing cluster with
  | nil => simp only [clustersAfter, List.flatten_cons, List.flatten_nil]
  | cons c rest ih =>
      rw [clustersAfter]
      split
      · rw [ih, List.reverse_cons, List.append_assoc, List.singleton_append]
      · rw [List.flatten_cons, ih, List.reverse_singleton, List.singleton_append]

/-- Nothing is lost between two clusters. -/
theorem flatten_clusters (text : List Char) : (clusters text).flatten = text := by
  cases text with
  | nil => rfl
  | cons c rest =>
      rw [clusters, flatten_clustersAfter, List.reverse_singleton, List.singleton_append]

end LineEditor
end MiniLisp
