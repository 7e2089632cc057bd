import NetTools.AllOrNothing

namespace NetTools

open CArray SliceWrites Download

namespace Download

/-- What has arrived of each chunk stands at the beginning of the chunk, with zeros up to its
end. -/
structure Patchwork (fileSize : ℕ) (tasks : List DownloadTask) (arrived : ℕ → Bytes)
    (out : Bytes) : Prop where
  length : out.length = fileSize
  data : ∀ i task k, tasks[i]? = some task → k < (arrived i).length →
    out[task.offset+k]? = (arrived i)[k]?
  zeros : ∀ i task k, tasks[i]? = some task → (arrived i).length ≤ k → k < task.size →
    out[task.offset+k]? = some 0

/-- Every byte of the file that has not arrived is zero. -/
def MissingAreZero (file : Bytes) (tasks : List DownloadTask) (arrived : ℕ → Bytes) : Prop :=
  ∀ i task k, tasks[i]? = some task → (arrived i).length ≤ k → k < task.size →
    file[task.offset+k]? = some 0

section

variable {fileSize : ℕ} {tasks : List DownloadTask} {schedule : List (ℕ × Bytes)}

theorem outputOf_eq (ht : Tiles fileSize tasks) {i : ℕ} {task : DownloadTask}
    (hi : tasks[i]? = some task) : outputOf tasks i = task.offset := by
  rw [outputOf, hi]
  exact ht.output task (List.mem_of_getElem? hi)

end

end Download

namespace FTP

end FTP

namespace TFTP

namespace Receiver

variable {size : ℕ}

end Receiver

end TFTP

namespace Download

/-- What the run left in `output.dat`: every chunk's beginning that arrived, zeros behind it, and so
the file exactly when everything that is missing is zero. -/
def LeavesGaps (file : Bytes) (tasks : List DownloadTask) (ends : ℕ → ThreadEnd) (out : Bytes) :
    Prop :=
  Patchwork file.length tasks (fun i => (ends i).copied.flatten) out ∧
    (out = file ↔ MissingAreZero file tasks fun i => (ends i).copied.flatten)

end Download

end NetTools
