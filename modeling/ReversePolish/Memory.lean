import ReversePolish.Binary64.Basic

/-!
# Memory

The variables that hold a value, and the target, the variable that the next value goes to.
-/

namespace ReversePolish

/-- Variables with their values, one entry a name, and the target. -/
structure Memory where
  values : List (String × Binary64) := []
  target : String
  deriving DecidableEq

namespace Memory

/-- The value of a variable; one never stored to reads as zero. -/
def get (memory : Memory) (name : String) : Binary64 :=
  (memory.values.lookup name).getD (.zero false)

def store (memory : Memory) (value : Binary64) : Memory :=
  { memory with
    values := (memory.target, value) :: memory.values.filter (·.1 ≠ memory.target) }

def retarget (memory : Memory) (name : String) : Memory := { memory with target := name }

@[simp] theorem get_start (target name : String) :
    ({ target } : Memory).get name = .zero false := rfl

@[simp] theorem get_retarget (memory : Memory) (target name : String) :
    (memory.retarget target).get name = memory.get name := rfl

@[simp] theorem target_store (memory : Memory) (value : Binary64) :
    (memory.store value).target = memory.target := rfl

private theorem lookup_filter_ne {name target : String} (h : name ≠ target)
    (values : List (String × Binary64)) :
    (values.filter (·.1 ≠ target)).lookup name = values.lookup name := by
  induction values with
  | nil => rfl
  | cons entry values ih =>
    obtain ⟨key, value⟩ := entry
    by_cases hkey : key = target
    · have hname : (name == key) = false := by simp [hkey, h]
      rw [List.filter_cons_of_neg (by simp [hkey]), List.lookup_cons, hname, ih]
    · rw [List.filter_cons_of_pos (by simp [hkey]), List.lookup_cons, List.lookup_cons, ih]

theorem lookup_store (memory : Memory) (value : Binary64) (name : String) :
    (memory.store value).values.lookup name =
      if name = memory.target then some value else memory.values.lookup name := by
  rw [store, List.lookup_cons]
  by_cases h : name = memory.target
  · simp [h]
  · have hname : (name == memory.target) = false := by simp [h]
    rw [hname, if_neg h]
    exact lookup_filter_ne h memory.values

@[simp] theorem get_store_self (memory : Memory) (value : Binary64) :
    (memory.store value).get memory.target = value := by
  rw [get, lookup_store, if_pos rfl]
  rfl

theorem get_store_of_ne {memory : Memory} {name : String} (h : name ≠ memory.target)
    (value : Binary64) : (memory.store value).get name = memory.get name := by
  rw [get, lookup_store, if_neg h, get]

end Memory

end ReversePolish
