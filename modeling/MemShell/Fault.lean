set_option autoImplicit false

/-!
# Faults

What can go wrong, by cause. Each cause has one message and belongs to one category, and the
category decides which kind of failure a command line reports. A breakdown belongs to none: it is no
failure that the shell foresees.
-/
namespace MemShell

inductive ErrorKind where
  | parse | validation | execution | system
deriving DecidableEq, Repr

namespace ErrorKind

def name : ErrorKind → String
  | .parse => "parse"
  | .validation => "validation"
  | .execution => "execution"
  | .system => "system"

def ofName? (s : String) : Option ErrorKind :=
  [.parse, .validation, .execution, .system].find? fun k => k.name = s

end ErrorKind

inductive Category where
  | shell | parse | validation | nodeNotFound | nodeExists | invalidOperation | permissionDenied
  | execution | jobNotFound | jobCancelled | storage
deriving DecidableEq, Repr

def Category.kind : Category → ErrorKind
  | .parse => .parse
  | .validation | .nodeNotFound | .nodeExists | .invalidOperation | .permissionDenied => .validation
  | .shell | .execution | .jobNotFound | .jobCancelled => .execution
  | .storage => .system

def Category.isValidation (c : Category) : Bool := c.kind = .validation

inductive GrammarFault where
  | unterminatedQuote (quote : Char) (column : Nat)
  | unexpectedToken (text : String)
  | inputNotFirst | duplicateInput | outputNotLast | duplicateOutput | missingCommand
  | aliasLoop (word : String)
deriving DecidableEq, Repr

inductive NodeFault where
  | invalidName (name : String)
  | notFound (path : String)
  | notDirectory (path : String)
  | isDirectory (path : String)
  | exists (path : String)
  | directoryExists (path : String)
  | denied (path : String)
  | notOwner (action path : String)
  | rootTarget | removeRoot | moveRoot | redirectRoot
  | notEmpty (path : String)
  | moveInside (path : String)
  | copyInside (path : String)
  | omittedDirectory (path : String)
  | directoryOverFile (path : String)
  | unknownUser (name : String)
  | unknownGroup (name : String)
  | invalidMode (text : String)
deriving DecidableEq, Repr

inductive UsageFault where
  | longNeedsValue (option : String)
  | shortNeedsValue (letter : String)
  | wrongCount (text : String)
  | missingPath
deriving DecidableEq, Repr

inductive AccountFault where
  | invalidName (what name : String)
  | exists (what name : String)
  | unknown (what name : String)
  | noOuterSession
deriving DecidableEq, Repr

inductive CommandFault where
  | notFound (what : String)
  | cannotRemove (path : String)
  | failedToRemove (path : String)
  | invalidJobId (text : String)
  | reported (text : String)
  | outsideJob
  | invalidInterval (text : String)
  | noHelp (command : String)
  | noStorage
  | invalidNumber (text : String)
  | invalidPattern (reason : String)
  | rootOnly
  | unknownUser (name : String)
  | authentication
  | noOuterSession
  | usermodUsage
deriving DecidableEq, Repr

inductive StorageFault where
  | unreadable (path reason : String)
  | corruptedFile (path : String)
  | corruptedEntry (name : String)
  | corruptedField (name reason : String)
  | fileWithChildren (name : String)
  | directoryWithContent (name : String)
  | corruptedChildren (name : String)
  | rootNotDirectory
deriving DecidableEq, Repr

/-- What stops an operation from outside of its rules. -/
inductive Breakdown where
  | value (text : String)
  | index (text : String)
  | overflow (text : String)
  | system (text : String)
  | runtime (text : String)
  | diskDirectory (path : String)
  | diskNotDirectory (path : String)
deriving DecidableEq, Repr

inductive Fault where
  | grammar (f : GrammarFault)
  | node (f : NodeFault)
  | usage (f : UsageFault)
  | account (f : AccountFault)
  | invalidAlias (name : String)
  | invalidVariable (name : String)
  | command (name : String) (f : CommandFault)
  | unknownJob (id : Int)
  | jobCancelled
  | wokenByCancel (command : String) (id : Int)
  | storage (f : StorageFault)
  | within (command : String) (f : Fault)
  | custom (category : Category) (text : String)
  | breakdown (b : Breakdown)
deriving DecidableEq, Repr

def GrammarFault.message : GrammarFault → String
  | .unterminatedQuote q column =>
    "unterminated quote " ++ q.toString ++ " starting at column " ++ toString column
  | .unexpectedToken text =>
    "syntax error near unexpected token '" ++ (if text.isEmpty then "newline" else text) ++ "'"
  | .inputNotFirst => "input redirection is only allowed on the first command"
  | .duplicateInput => "duplicate input redirection"
  | .outputNotLast => "output redirection is only allowed on the last command"
  | .duplicateOutput => "duplicate output redirection"
  | .missingCommand => "missing command name"
  | .aliasLoop word => "alias loop detected for '" ++ word ++ "'"

namespace NodeFault

def message : NodeFault → String
  | .invalidName name => "invalid name: '" ++ name ++ "'"
  | .notFound path => "'" ++ path ++ "': No such file or directory"
  | .notDirectory path => "'" ++ path ++ "': Not a directory"
  | .isDirectory path => "'" ++ path ++ "': Is a directory"
  | .exists path => "'" ++ path ++ "' already exists"
  | .directoryExists path => "cannot create directory '" ++ path ++ "': File exists"
  | .denied path => "'" ++ path ++ "': Permission denied"
  | .notOwner action path =>
    "changing " ++ action ++ " of '" ++ path ++ "': Operation not permitted"
  | .rootTarget => "operation not permitted on '/'"
  | .removeRoot => "cannot remove root directory"
  | .moveRoot => "cannot move root directory"
  | .redirectRoot => "cannot redirect output to '/'"
  | .notEmpty path => "cannot remove '" ++ path ++ "': Directory not empty"
  | .moveInside path => "cannot move '" ++ path ++ "' inside itself"
  | .copyInside path => "cannot copy '" ++ path ++ "' into itself"
  | .omittedDirectory path => "-r not specified; omitting directory '" ++ path ++ "'"
  | .directoryOverFile path => "cannot overwrite non-directory '" ++ path ++ "' with directory"
  | .unknownUser name => "invalid user: '" ++ name ++ "'"
  | .unknownGroup name => "invalid group: '" ++ name ++ "'"
  | .invalidMode text => "invalid mode: '" ++ text ++ "'"

def category : NodeFault → Category
  | .notFound _ => .nodeNotFound
  | .exists _ | .directoryExists _ => .nodeExists
  | .denied _ | .notOwner .. => .permissionDenied
  | .unknownUser _ | .unknownGroup _ | .invalidMode _ => .validation
  | _ => .invalidOperation

end NodeFault

def UsageFault.message : UsageFault → String
  | .longNeedsValue option => "option '" ++ option ++ "' requires an argument"
  | .shortNeedsValue letter => "option requires an argument -- '" ++ letter ++ "'"
  | .wrongCount text => text
  | .missingPath => "missing path argument"

namespace AccountFault

def message : AccountFault → String
  | .invalidName what name => "invalid " ++ what ++ " name: '" ++ name ++ "'"
  | .exists what name => what ++ " '" ++ name ++ "' already exists"
  | .unknown what name => what ++ " '" ++ name ++ "' does not exist"
  | .noOuterSession => "no other user session to return to"

def category : AccountFault → Category
  | .invalidName .. => .validation
  | _ => .execution

end AccountFault

def CommandFault.message : CommandFault → String
  | .notFound what => what ++ ": not found"
  | .cannotRemove path => "cannot remove '" ++ path ++ "': No such file or directory"
  | .failedToRemove path => "failed to remove '" ++ path ++ "': Directory not empty"
  | .invalidJobId text => "invalid job ID: " ++ text
  | .reported text => text
  | .outsideJob => "can only be run from within a background job"
  | .invalidInterval text => "invalid time interval '" ++ text ++ "'"
  | .noHelp command => "no help for '" ++ command ++ "': command not found"
  | .noStorage => "no persistence backend configured"
  | .invalidNumber text => "invalid number: '" ++ text ++ "'"
  | .invalidPattern reason => "invalid pattern: " ++ reason
  | .rootOnly => "only root can do that"
  | .unknownUser name => "user '" ++ name ++ "' does not exist"
  | .authentication => "Authentication failure"
  | .noOuterSession => "no other user session to return to"
  | .usermodUsage => "usage: usermod -aG GROUP USER"

def StorageFault.message : StorageFault → String
  | .unreadable path reason => "cannot read snapshot " ++ path ++ ": " ++ reason
  | .corruptedFile path => "corrupted snapshot in " ++ path
  | .corruptedEntry name => "corrupted snapshot entry for '" ++ name ++ "'"
  | .corruptedField name reason => "corrupted snapshot entry for '" ++ name ++ "': " ++ reason
  | .fileWithChildren name => "file '" ++ name ++ "' cannot hold children"
  | .directoryWithContent name => "directory '" ++ name ++ "' cannot hold content"
  | .corruptedChildren name => "corrupted children for '" ++ name ++ "'"
  | .rootNotDirectory => "snapshot root must be a directory"

def Breakdown.message : Breakdown → String
  | .value t | .index t | .overflow t | .system t | .runtime t => t
  | .diskDirectory path => "[Errno 21] Is a directory: '" ++ path ++ "'"
  | .diskNotDirectory path => "[Errno 20] Not a directory: '" ++ path ++ "'"

namespace Fault

def message : Fault → String
  | .grammar f => f.message
  | .node f => f.message
  | .usage f => f.message
  | .account f => f.message
  | .invalidAlias name => "invalid alias name: '" ++ name ++ "'"
  | .invalidVariable name =>
    "Invalid variable name: '" ++ name ++ "'. Must start with a letter or underscore, " ++
      "followed by letters, numbers, or underscores."
  | .command name f => name ++ ": " ++ f.message
  | .unknownJob id => "job not found: " ++ toString id
  | .jobCancelled => "job cancelled"
  | .wokenByCancel name id => name ++ ": job " ++ toString id ++ " cancelled"
  | .storage f => f.message
  | .within name f => name ++ ": " ++ f.message
  | .custom _ text => text
  | .breakdown b => b.message

def category? : Fault → Option Category
  | .grammar _ => some .parse
  | .node f => some f.category
  | .usage _ | .invalidVariable _ => some .validation
  | .account f => some f.category
  | .invalidAlias _ | .command .. => some .execution
  | .unknownJob _ => some .jobNotFound
  | .jobCancelled | .wokenByCancel .. => some .jobCancelled
  | .storage _ => some .storage
  | .within _ f => f.category?
  | .custom category _ => some category
  | .breakdown _ => none

def isNotFound (f : Fault) : Bool := f.category? = some .nodeNotFound

def isValidation (f : Fault) : Bool := (f.category?.map Category.isValidation).getD false

end Fault

theorem bind_eq_ok_iff {α β : Type} {x : Except Fault α} {f : α → Except Fault β} {b : β} :
    x >>= f = .ok b ↔ ∃ a, x = .ok a ∧ f a = .ok b := by
  cases x <;> simp [bind, Except.bind]

end MemShell
