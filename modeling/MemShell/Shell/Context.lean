import MemShell.Command.Invocation
import MemShell.Jobs.Mailboxes
import MemShell.Pipeline
import MemShell.Result
set_option autoImplicit false

namespace MemShell

structure Script where
  source : String
  args : List String := []
  depth : Nat := 1
  line : Nat := 0
deriving DecidableEq, Repr

structure Caller where
  user : String
  job : Option JobId := none
  script : Option Script := none
deriving DecidableEq, Repr

/-- What a command is given: its words after the check, its input and its caller. -/
structure Context where
  name : String
  args : List String
  flags : Flags
  paths : List CheckedPath
  input : Option String
  caller : Caller
  /-- The optional services that commands have asked for, and whether they are there. -/
  services : Table String Bool

namespace Context

def user (c : Context) : String := c.caller.user

def hasFlag (c : Context) (name : String) : Bool := c.flags.isOn name

def inputText (c : Context) : String := c.input.getD ""

def fault (c : Context) (f : CommandFault) : Fault := .command c.name f

end Context

inductive Builtin where
  | pwd | cd | ls | tree
  | touch | mkdir | rm | rmdir | mv | cp | chmod | chown | chgrp
  | echo | cat | wc | head | tail | grep | sort
  | set | unset | env | defineAlias | unalias
  | whoami | su | logout | login | useradd | groupadd | usermod | groups
  | ps | kill | postMessage | readMessages
  | help | history | yes | no | save
deriving DecidableEq, Repr

structure Reply where
  pause : Option Binary64 := none
  outcome : Except Fault (Result String)

inductive Action where
  | builtin (b : Builtin)
  /-- Waits for a number of units, so many of which make a second. -/
  | wait (unitsPerSecond : Nat)
  | runScript
  /-- Builds commands from the lines of the input. -/
  | fanOut
  | custom (answer : Context → Reply)

structure Command where
  contract : Contract
  action : Action

/-- What someone who watches a line notes: each command whose words passed the check, just before it
does its work, and each output that is about to be written to a file. -/
inductive Note where
  | command (action : Action) (c : Context)
  | redirect (caller : Caller) (target : Redirect) (text : String)

namespace Note

def caller : Note → Caller
  | command _ c => c.caller
  | redirect caller _ _ => caller

end Note
end MemShell
