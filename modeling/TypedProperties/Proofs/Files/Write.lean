import Mathlib.Tactic.SplitIfs
import TypedProperties.Files.Tree
import TypedProperties.Proofs.Lookup
import TypedProperties.Proofs.Text.Cut

/-! What writing a file does to a tree: the place that the path leads to holds the content, or as much of it as the
file takes, and every other place is as it was. -/
namespace TypedProperties

namespace Text

end Text

namespace FileTree

variable {tree opened : FileTree} {path name : Text} {content : Bytes} {place target other start : Place}
  {node : Node} {parts more above : List Text}

/-- What a file takes of a content, which is all of it just where nothing fails. -/
inductive Takes (tree : FileTree) (place : Place) (content : Bytes) : Bytes → Option AccessFault → Prop
  | whole (room : ∀ limit ∈ tree.limits.lookup place, content.length ≤ limit.room) :
      Takes tree place content content none
  | part {limit : Limit} (limited : tree.limits.lookup place = some limit) (short : limit.room < content.length) :
      Takes tree place content (content.take limit.room) (some (.noRoom limit.reason))

end FileTree
end TypedProperties
