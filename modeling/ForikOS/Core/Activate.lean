import ForikOS.Core.Thread

/-!
# Address Spaces and Switches

Which page directory is loaded while tasks are switched, with the three places
where a task runs with something else than its own for a while.

`inode_open` and `inode_close` clear `pgdir` in the PCB of the caller around a
call of `sys_malloc` or `sys_free`, so that the kernel's heap is used, and put
it back from a local variable. The heap takes the lock of the kernel's pool,
so the caller can be switched out there. `copy_body_stack3` loads the page
directory of the child for every page it copies, and then that of the parent.

## Main definitions

* `Spaces`: The scheduler, and who is inside one of these places.
* `clearPgdir`, `restorePgdir`: The statements around the heap call.
* `copyBegin`, `copyEnd`: `page_dir_activate` of the child and of the parent.
* `processExecute`: A new process.
* `spaceSystem`: Any interleaving.
-/

namespace ForikOS

/-- The scheduler, the `cur_pagedir_bak` of a task whose `pgdir` is cleared, and
    the page directory that a task in `copy_body_stack3` has loaded. -/
structure Spaces (T S P : Type) where
  sched : Sched T S P
  curPagedirBak : T → Option (Option P)
  copying : T → Option P

variable {T S P : Type} [DecidableEq T] [DecidableEq S]

/-- Change `pgdir` in one PCB. -/
def Sched.setPgdir (k : Sched T S P) (t : T) (pgdir : Option P) : Sched T S P :=
  k.setTask t { k.task t with pgdir := pgdir }

/-- `cur_pagedir_bak = cur->pgdir; cur->pgdir = NULL`. -/
def clearPgdir (k : Spaces T S P) : Spaces T S P :=
  { k with
    sched := k.sched.setPgdir k.sched.cur none
    curPagedirBak := Function.update k.curPagedirBak k.sched.cur
      (some (k.sched.task k.sched.cur).pgdir) }

/-- `cur->pgdir = cur_pagedir_bak`. -/
def restorePgdir (k : Spaces T S P) : Spaces T S P :=
  match k.curPagedirBak k.sched.cur with
  | none => k
  | some bak =>
      { k with
        sched := k.sched.setPgdir k.sched.cur bak
        curPagedirBak := Function.update k.curPagedirBak k.sched.cur none }

/-- `page_dir_activate(child_thread)` in `copy_body_stack3`. -/
def copyBegin (k : Spaces T S P) (pg : P) : Spaces T S P :=
  { k with
    sched := { k.sched with cr3 := some pg }
    copying := Function.update k.copying k.sched.cur (some pg) }

/-- `page_dir_activate(parent_thread)` in `copy_body_stack3`. -/
def copyEnd (k : Spaces T S P) : Spaces T S P :=
  { k with
    sched := { k.sched with cr3 := (k.sched.task k.sched.cur).pgdir }
    copying := Function.update k.copying k.sched.cur none }

/-- `default_prio`. -/
def defaultPrio : UInt8 := 31

/-- `process_execute` in the fresh PCB `t` with the new page directory `pg`. -/
def processExecute (k : Sched T S P) (t : T) (pg : P) : Except Func (Sched T S P) :=
  enterLists k .threadStart t
    { status := .ready
      priority := defaultPrio
      ticks := defaultPrio
      elapsedTicks := 0
      pgdir := some pg }

/-- What can happen next. -/
inductive SpaceEvent (T S P : Type)
  | sched (e : SchedEvent T S P)
  | execute (t : T) (pg : P)
  | clear
  | restore
  | copyBegin (pg : P)
  | copyEnd

/-- A new task is in none of the places. -/
def Spaces.enter (k : Spaces T S P) (t : T) : Spaces T S P :=
  { k with
    curPagedirBak := Function.update k.curPagedirBak t none
    copying := Function.update k.copying t none }

/-- The step of an event. -/
def spaceStep (k : Spaces T S P) : SpaceEvent T S P → Except Func (Spaces T S P)
  | .sched e => do
      let sched ← schedStep k.sched e
      match e with
      -- A new task has a stack of its own.
      | .start t _ => .ok ({ k with sched := sched }.enter t)
      | .fork t _ => .ok ({ k with sched := sched }.enter t)
      | _ => .ok { k with sched := sched }
  | .execute t pg => do
      let sched ← processExecute k.sched t pg
      .ok ({ k with sched := sched }.enter t)
  | .clear => .ok (clearPgdir k)
  | .restore => .ok (restorePgdir k)
  | .copyBegin pg => .ok (copyBegin k pg)
  | .copyEnd => .ok (copyEnd k)

/-- A task that is in none of the places. -/
def AtRest (k : Spaces T S P) (t : T) : Prop := k.curPagedirBak t = none ∧ k.copying t = none

/-- Inside the places a task takes and gives back locks, and can be
    interrupted by the timer or by a handler that wakes a task. Everything else
    it does elsewhere. -/
def OnlyLocks : SchedEvent T S P → Prop
  | .timer => True
  | .unblock _ => True
  | .down _ => True
  | .resume => True
  | .up _ => True
  | _ => False

/-- Where an event can happen. -/
def spaceEnabled (k : Spaces T S P) : SpaceEvent T S P → Prop
  | .sched e => schedEnabled k.sched e ∧ (AtRest k k.sched.cur ∨ OnlyLocks e)
  | .execute t _ => k.sched.inSemaDown k.sched.cur = none ∧ k.sched.cur ≠ k.sched.idleThread ∧
      t ∉ k.sched.threadAllList ∧ AtRest k k.sched.cur
  | .clear => k.sched.inSemaDown k.sched.cur = none ∧ AtRest k k.sched.cur
  | .restore => k.sched.inSemaDown k.sched.cur = none ∧ k.curPagedirBak k.sched.cur ≠ none
  | .copyBegin _ => k.sched.inSemaDown k.sched.cur = none ∧ AtRest k k.sched.cur ∧
      (k.sched.task k.sched.cur).pgdir ≠ none
  | .copyEnd => k.sched.inSemaDown k.sched.cur = none ∧ k.copying k.sched.cur ≠ none

/-- The state after `thread_init`: a kernel thread runs in the kernel's own
    address space. -/
def spaceInit (k : Spaces T S P) : Prop :=
  schedInit k.sched ∧ k.sched.cr3 = none ∧ (k.sched.task k.sched.cur).pgdir = none ∧
    ∀ t, AtRest k t

/-- Any interleaving after `thread_init`. -/
def spaceSystem (T S P : Type) [DecidableEq T] [DecidableEq S] :
    System (Spaces T S P) (SpaceEvent T S P) Func where
  init := spaceInit
  enabled := spaceEnabled
  step := spaceStep

end ForikOS
