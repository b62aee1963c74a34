import ChatHistory.Block

/-!
# Which message a tool result belongs to

The result of a tool comes later than the message that uses the tool.  `ToolOwners` remembers for
the identifier of every use the owner that it was assigned to first, and the result that was
delivered last.  `resultsOf` is the view of it: the results of one owner by identifier.
-/

namespace ChatHistory

/-- The owners of tool uses by identifier, and the results delivered for them. -/
structure ToolOwners (κ : Type) where
  assigned : Assoc κ
  results : Assoc ToolResult

namespace ToolOwners

variable {κ : Type}

/-- No tool use has an owner. -/
def empty : ToolOwners κ := ⟨[], []⟩

/-- The owner of the tool use with the given identifier. -/
def owner? (known : ToolOwners κ) (id : String) : Option κ :=
  Assoc.get? known.assigned id

/-- The owners with one more identifier assigned; an earlier owner stays. -/
def assignId (known : ToolOwners κ) (owner : κ) (id : String) : ToolOwners κ :=
  if (known.owner? id).isSome then known
  else { known with assigned := Assoc.set known.assigned id owner }

/-- The owners with all tool uses among some blocks assigned to one of them. -/
def assign (known : ToolOwners κ) (owner : κ) (blocks : List Block) : ToolOwners κ :=
  (blocks.filterMap Block.toolUse?).foldl (fun c use => c.assignId owner use.id) known

/-- A result whose tool use has an owner. -/
def accepts (known : ToolOwners κ) (result : ToolResult) : Bool :=
  (known.owner? result.toolUseId).isSome

/-- The owners with a result delivered to the owner of its tool use, if it has one. -/
def deliver (known : ToolOwners κ) (result : ToolResult) : ToolOwners κ :=
  if known.accepts result then
    { known with results := Assoc.set known.results result.toolUseId result }
  else
    known

/-- The results delivered for the tool uses of one owner. -/
def resultsOf [DecidableEq κ] (known : ToolOwners κ) (owner : κ) : Assoc ToolResult :=
  known.results.filter fun entry => known.owner? entry.1 = some owner

end ToolOwners

end ChatHistory
