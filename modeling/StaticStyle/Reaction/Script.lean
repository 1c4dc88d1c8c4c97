import StaticStyle.Fields

/-!
Listeners that act when they are called. A listener is a name with a script of commands. A call runs
the commands that are left, each of them once ever, so listeners that call one another come to an
end. A command may introduce a listener, which gets its script at its first introduction.
-/

namespace StaticStyle.Reaction

/-- A command of a script. -/
inductive Command (α : Type) where
  | plain (action : α)
  /-- Gives a listener its script, unless it has one, before the action. -/
  | introduce (listener : Text) (script : List (Command α)) (action : α)
  /-- Goes on behind the action even if it fails, or a listener that is called for it. -/
  | attempt (action : α)
  /-- Ends the call. The next call goes on behind it. -/
  | pause
  /-- Breaks off the call and everything that led to it. -/
  | raise
deriving Repr

abbrev Scripts (α : Type) := Fields (List (Command α))

namespace Command

variable {α : Type}

instance : Inhabited (Command α) := ⟨pause⟩

mutual
/-- The number of commands in a command. -/
def size : Command α → Nat
  | plain _ => 1
  | introduce _ script _ => 1 + sizes script
  | attempt _ => 1
  | pause => 1
  | raise => 1

def sizes : List (Command α) → Nat
  | [] => 0
  | command :: rest => command.size + sizes rest
end

def action? : Command α → Option α
  | plain action => some action
  | introduce _ _ action => some action
  | attempt action => some action
  | pause | raise => none

end Command

namespace Scripts

variable {α : Type}

/-- The number of commands that have not been run. -/
def size : Scripts α → Nat
  | [] => 0
  | (_, script) :: rest => Command.sizes script + size rest

/-- Gives a listener a script at its first introduction. -/
def introduce (command : Command α) (scripts : Scripts α) : Scripts α :=
  match command with
  | .introduce listener script _ =>
    if Fields.contains listener scripts then scripts else scripts ++ [(listener, script)]
  | _ => scripts

/-- Takes the next command of a listener out of its script. -/
def take? (listener : Text) : Scripts α → Option (Command α × Scripts α)
  | [] => none
  | (name, script) :: rest =>
    if name = listener then
      match script with
      | [] => none
      | command :: script => some (command, (name, script) :: rest)
    else (take? listener rest).map fun (command, rest) => (command, (name, script) :: rest)

private theorem size_append (first second : Scripts α) :
    size (first ++ second) = size first + size second := by
  induction first with
  | nil => simp [size]
  | cons entry rest ih => simp [size, ih, Nat.add_assoc]

private theorem size_introduce (command : Command α) (scripts : Scripts α) :
    size (introduce command scripts) < size scripts + command.size := by
  cases command with
  | introduce listener script action =>
    simp only [introduce, Command.size]
    split
    · omega
    · simp [size_append, size]
  | _ => simp [introduce, Command.size]

private theorem size_take (listener : Text) (scripts : Scripts α) {command : Command α}
    {left : Scripts α} (taken : take? listener scripts = some (command, left)) :
    size scripts = command.size + size left := by
  induction scripts generalizing left with
  | nil => simp [take?] at taken
  | cons entry rest ih =>
    obtain ⟨name, script⟩ := entry
    simp only [take?] at taken
    split at taken
    · cases script with
      | nil => simp at taken
      | cons head tail =>
        simp only [Option.some.injEq, Prod.mk.injEq] at taken
        obtain ⟨rfl, rfl⟩ := taken
        simp [size, Command.sizes, Nat.add_assoc]
    · obtain ⟨⟨found, others⟩, foundIn, same⟩ := Option.map_eq_some_iff.mp taken
      simp only [Prod.mk.injEq] at same
      obtain ⟨rfl, rfl⟩ := same
      have := ih foundIn
      simp only [size]
      omega

theorem size_run_lt (listener : Text) (scripts : Scripts α) {command : Command α}
    {left : Scripts α} (taken : take? listener scripts = some (command, left)) :
    size (introduce command left) < size scripts := by
  have kept := size_take listener scripts taken
  have added := size_introduce command left
  omega

end Scripts

end StaticStyle.Reaction
