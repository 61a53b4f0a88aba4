/-! Changes of sheets, and history records that gather them under titles. -/
namespace Gridbook

/-- New content for one sheet. -/
structure SheetChange where
  sheet : String
  content : String
  deriving DecidableEq

/-- The changes recorded under one title. -/
structure HistoryRecord where
  title : String
  changes : List SheetChange
  deriving DecidableEq

structure TitledChange where
  title : String
  change : SheetChange
  deriving DecidableEq

namespace HistoryRecord

/-- Adds a change to the record of its title, or as a new record at the end. -/
def file (titled : TitledChange) : List HistoryRecord → List HistoryRecord
  | [] => [⟨titled.title, [titled.change]⟩]
  | record :: records =>
    if record.title = titled.title then { record with changes := record.changes ++ [titled.change] } :: records
    else record :: file titled records

/-- One record for each title, in the order in which titles first come. Changes without a title are left out. -/
def group (changes : List TitledChange) : List HistoryRecord :=
  changes.foldl (fun records titled => if titled.title.isEmpty then records else file titled records) []

end HistoryRecord
end Gridbook
