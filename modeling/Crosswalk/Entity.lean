import Crosswalk.Config

/-!
# Entities

The sorts of documents that a mapping produces. A record usually makes one
document; holdings are split by the values of a grouping field, and items can be
mapped once for every occurrence of a tag.
-/

namespace Crosswalk

inductive Entity where
  | resource
  | holdings
  | item
  | order
  | invoice
  | authority
  deriving DecidableEq, Repr, Inhabited

inductive Expansion where
  | single
  | grouping (field : String)
  | perOccurrence
  deriving DecidableEq, Repr, Inhabited

namespace Entity

def rootKey : Entity → String
  | resource => "instance"
  | holdings => "holdings"
  | item => "item"
  | order => "order"
  | invoice => "invoice"
  | authority => "authority"

def names : List (String × Entity) :=
  [("INSTANCE", .resource), ("HOLDINGS", .holdings), ("ITEM", .item), ("ORDER", .order),
   ("INVOICE", .invoice), ("AUTHORITY", .authority)]

def name : Entity → String
  | resource => "INSTANCE"
  | holdings => "HOLDINGS"
  | item => "ITEM"
  | order => "ORDER"
  | invoice => "INVOICE"
  | authority => "AUTHORITY"

theorem get?_names (entity : Entity) : Entries.get? entity.name names = some entity := by
  cases entity <;> decide

def expansion (config : Config) : Entity → Expansion
  | holdings => .grouping config.groupingField
  | item => .perOccurrence
  | _ => .single

end Entity

end Crosswalk
