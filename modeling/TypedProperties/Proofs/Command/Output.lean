import TypedProperties.Command.Run
import TypedProperties.Proofs.Command.Arguments

/-! What a command does to the files: nothing, unless it formats into an output and everything in front of writing that
goes well. -/
namespace TypedProperties
namespace Request

variable {world : World} {o : CommonOptions} {path output text : Text} {command : Command}

/-- The settings load, the variants can be set, and the file with all that it includes reads as the store. -/
structure Reads (world : World) (o : CommonOptions) (path : Text) (settings : Settings) (store : Store) : Prop where
  loaded : (loader o).bind (·.load world) = some settings
  read : ∃ variants topic, variantsOf o = .ok variants ∧
    ((readerOf settings o variants path).readFile world path).result = .ok (store, topic)

end Request

open Request Arguments

/-- What an output holds that was opened: the text, or as much of it as the file takes, and then the run fails. -/
inductive Holds (tree : FileTree) (place : Place) (result : RunResult) (output text : Text) : Prop
  | whole (code : result.code = 0) (holds : result.tree.read output = .ok (Text.encode text))
  | part {limit : Limit} (limited : tree.limits.lookup place = some limit)
      (short : limit.room < (Text.encode text).length) (code : result.code = 1)
      (holds : result.tree.read output = .ok ((Text.encode text).take limit.room))

end TypedProperties
