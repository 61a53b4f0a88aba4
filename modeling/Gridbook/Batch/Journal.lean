import Gridbook.Batch.Editor

/-! Runs of an editor whose receiver keeps a journal of the calls and answers as it is told. -/
namespace Gridbook

structure Journal where
  sent : List (List SheetChange) := []
  recorded : List HistoryRecord := []
  log : List LogLine := []
  deriving DecidableEq

abbrev Recording := StateM Journal

instance : MonadLog Recording where
  log line := modify fun journal => { journal with log := journal.log ++ [line] }

def Receiver.answering (accept : Bool) : Receiver Recording where
  update changes := do
    modify fun journal => { journal with sent := journal.sent ++ [changes] }
    return accept
  record entry := modify fun journal => { journal with recorded := journal.recorded ++ [entry] }

inductive EditorCall where
  | setSheet (name : String)
  | submit (batch : List Edit) (accept : Bool)
  deriving DecidableEq

namespace Editor

/-- The editor after a call, the call's answer and what it wrote to the journal. -/
def call (editor : Editor) : EditorCall → Editor × Except Rejected Unit × Journal
  | .setSheet name => (⟨name⟩, .ok (), {})
  | .submit batch accept => (editor, (editor.submit (Receiver.answering accept) batch).run {})

end Editor
end Gridbook
