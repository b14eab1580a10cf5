import Phrasebook.Library
import Phrasebook.Proofs.Results

/-! Folders of bank files.
A folder lists its entries in an order of its own. The bank files among them are read by name, and
there is only one list of them by name. -/
namespace Phrasebook

/-- A folder as it lists its entries, no two of which have one name. -/
structure Folder where
  entries : List (String × Node)
  distinct : (entries.map Prod.fst).Nodup

namespace Folder

def node (f : Folder) : Node := .folder f.entries

end Folder

/-- These are the bank files of a folder, by name. Where there is no folder there are none. -/
structure Shelved (folder : Option Folder) (files : List (String × Node)) : Prop where
  ordered : files.Pairwise fun a b => a.1 < b.1
  complete : ∀ entry, entry ∈ files ↔
    (∃ f, folder = some f ∧ entry ∈ f.entries) ∧ Library.isBankFile entry.1 = true

namespace Shelved

open Library (bankFiles)

variable {folder folder' : Option Folder} {files files' : List (String × Node)}

theorem nodup (shelved : Shelved folder files) : files.Nodup :=
  shelved.ordered.imp fun less same => absurd (same ▸ less) (String.lt_irrefl _)

theorem unique (shelved : Shelved folder files) (shelved' : Shelved folder files') :
    files = files' := by
  have same : files.Perm files' := by
    rw [List.perm_ext_iff_of_nodup shelved.nodup shelved'.nodup]
    intro entry
    rw [shelved.complete, shelved'.complete]
  refine same.eq_of_pairwise ?_ shelved.ordered shelved'.ordered
  intro a b _ _ less more
  exact absurd (String.lt_trans less more) (String.lt_irrefl _)

end Shelved

end Phrasebook
