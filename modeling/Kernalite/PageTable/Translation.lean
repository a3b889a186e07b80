import Kernalite.PageTable.System

/-!
# Kernalite — translations after `map_page`

Read over write for whole page tables: in every reachable state, a successful
`map_page` call sets the translation of its own page to what was asked for and
changes no other translation, of this root or any other.
-/

namespace Kernalite

open PageTableEntry

variable {L : KernelLayout} {memStart memSize : Nat} {k k' : Kernel} {s : System}
  {F F' : Forest} {l l' : Ledger}

/-- Every translation after a call, from the translations before it. -/
theorem MapResult.walk_eq {taken : List Nat} {root : Nat} {vAddr : BitVec 64} {mapping : Mapping}
    {ok : Bool} (h : PageTables L k F l)
    (hResult : MapResult L k F l root vAddr mapping ok k' F' l' taken) {root' : Nat}
    (hRoot' : F.node root' [] = some root') (vAddr' : BitVec 64) :
    walk k'.mem root' vAddr' =
      if ok = true ∧ root' = root ∧ pageNumber vAddr' = pageNumber vAddr then some mapping.entry
      else walk k.mem root' vAddr' := by
  rw [hResult.tables.walk_eq (hResult.kept _ _ _ hRoot'), h.walk_eq hRoot', hResult.leaf_eq]
  simp only [vaPath_inj]
  split_ifs <;> rfl

/--
**Page-table read over write.** After a successful `map_page(root, vAddr,
phyAddr, perms)` in a reachable state, the walk of `vAddr` from `root` finds a
valid level 3 descriptor with bits [47:12] of `phyAddr` and the permission
fields derived from `perms`; the walk of every other page, and of every page
from another root, finds what it found before.
-/
theorem mapPage_readOverWrite (hReach : Reachable L memStart memSize s) {root : Nat}
    (hRoot : root ∈ s.roots) (vAddr phyAddr : BitVec 64) (perms : PagePermissions)
    (hOk : (mapPage root vAddr phyAddr perms s.kernel).1 = true) :
    (∃ entry, walk (mapPage root vAddr phyAddr perms s.kernel).2.mem root vAddr = some entry ∧
      isValid entry = true ∧ table.get entry = 1 ∧
      getPageTableEntryAddress entry = phyAddr &&& addrMask ∧
      xnTable.get entry = executeNever perms ∧ pxnTable.get entry = executeNever perms ∧
      apTable.get entry = (accessPermissions perms).bits) ∧
    ∀ root' ∈ s.roots, ∀ vAddr', root' ≠ root ∨ pageNumber vAddr' ≠ pageNumber vAddr →
      walk (mapPage root vAddr phyAddr perms s.kernel).2.mem root' vAddr' =
        walk s.kernel.mem root' vAddr' := by
  obtain ⟨F, l, hSound⟩ := reachable_sound hReach
  have hNode := (hSound.roots_iff root).mp hRoot
  obtain ⟨F', l', taken, hResult⟩ := mapPage_spec hSound.page_tables hNode vAddr phyAddr perms
  refine ⟨⟨leafEntry phyAddr perms, ?_, leafEntry_valid phyAddr perms, leafEntry_table phyAddr perms,
    leafEntry_address phyAddr perms, leafEntry_permissions phyAddr perms⟩, ?_⟩
  · rw [hResult.walk_eq hSound.page_tables hNode, if_pos ⟨hOk, rfl, rfl⟩]
    rfl
  · intro root' hRoot' vAddr' hOther
    rw [hResult.walk_eq hSound.page_tables ((hSound.roots_iff root').mp hRoot'), if_neg]
    rintro ⟨-, hSame, hPage⟩
    exact hOther.elim (fun h => h hSame) (fun h => h hPage)

/-- The first mapping of the small kernel, and the page next to it. -/
theorem mapPage_readOverWrite_smallSystem :
    walk (mapPage smallRoot 0x1000 0x5000 ⟨true, true, false⟩ smallSystem.kernel).2.mem smallRoot
        0x2000 =
      walk smallSystem.kernel.mem smallRoot 0x2000 :=
  (mapPage_readOverWrite smallSystem_reachable List.mem_cons_self 0x1000 0x5000 ⟨true, true, false⟩
    (smallSystem_maps 0x1000 ⟨true, true, false⟩ (by decide))).2 smallRoot List.mem_cons_self 0x2000
    (Or.inr (by decide))

end Kernalite
