import MemShell.Builtins.Files
import MemShell.Builtins.JobControl
import MemShell.Builtins.Meta
import MemShell.Builtins.Text
import MemShell.Builtins.Users
import MemShell.Builtins.Variables
set_option autoImplicit false

namespace MemShell

def Builtin.run : Builtin → Context → Effect (Result String)
  | .pwd => Builtins.pwd
  | .cd => Builtins.cd
  | .ls => Builtins.ls
  | .tree => Builtins.tree
  | .touch => Builtins.touch
  | .mkdir => Builtins.mkdir
  | .rm => Builtins.rm
  | .rmdir => Builtins.rmdir
  | .mv => Builtins.mv
  | .cp => Builtins.cp
  | .chmod => Builtins.chmod
  | .chown => Builtins.chown
  | .chgrp => Builtins.chgrp
  | .echo => Builtins.echo
  | .cat => Builtins.cat
  | .wc => Builtins.wc
  | .head => fun c => Builtins.cutSources c .first
  | .tail => fun c => Builtins.cutSources c .last
  | .grep => Builtins.grep
  | .sort => Builtins.sort
  | .set => Builtins.setVariable
  | .unset => Builtins.unset
  | .env => Builtins.env
  | .defineAlias => Builtins.defineAlias
  | .unalias => Builtins.unalias
  | .whoami => Builtins.whoami
  | .su => Builtins.su
  | .logout => Builtins.logout
  | .login => Builtins.login
  | .useradd => Builtins.useradd
  | .groupadd => Builtins.groupadd
  | .usermod => Builtins.usermod
  | .groups => Builtins.groups
  | .ps => Builtins.ps
  | .kill => Builtins.kill
  | .postMessage => Builtins.postMessage
  | .readMessages => Builtins.readMessages
  | .help => Builtins.help
  | .history => Builtins.history
  | .yes => Builtins.yes
  | .no => Builtins.no
  | .save => Builtins.save

namespace Catalogue

def readableFiles : PathRule :=
  { select := .all, kind := some .file, permissions := [.read], required := false }

def optionalDirectory : PathRule :=
  { select := .index 0, kind := some .directory, permissions := [.execute], required := false }

def recursiveFlags : List FlagSpec :=
  [{ name := "recursive", short := some "-r", long := some "--recursive" },
    { name := "recursive", short := some "-R" }]

def rangeFlags : List FlagSpec :=
  [{ name := "lines", short := some "-n", long := some "--lines", takesValue := true },
    { name := "bytes", short := some "-c", long := some "--bytes", takesValue := true }]

def exactly (n : Int) (error : Option String := none) : Option ArgSpec :=
  some { exact := some n, error }

def atLeast (n : Int) (error : Option String := none) : Option ArgSpec :=
  some { min := some n, error }

def atMost (n : Int) (error : Option String := none) : Option ArgSpec :=
  some { max := some n, error }

def between (least most : Int) : Option ArgSpec := some { min := some least, max := some most }

def flag (name short : String) (long : Option String := none) : FlagSpec :=
  { name, short := some short, long }

def scriptHelp : String :=
  "Usage: run SCRIPT [ARGS...]\n\n" ++
    "Runs each line of SCRIPT in a private environment frame. Inside the\n" ++
    "script $1..$9, $@ and $# expand to the script arguments."

def navigation : List Command :=
  [⟨{ name := "pwd", description := "Print working directory", args := exactly 0 },
      .builtin .pwd⟩,
    ⟨{ name := "cd", description := "Change directory", args := atMost 1 (some "too many arguments")
       paths := [optionalDirectory] }, .builtin .cd⟩,
    ⟨{ name := "ls", description := "List directory contents"
       flags := [flag "long" "-l" (some "--long"), flag "all" "-a" (some "--all")]
       paths := [{ select := .all, required := false }] }, .builtin .ls⟩,
    ⟨{ name := "tree", description := "Render tree view", args := atMost 1
       paths := [optionalDirectory] }, .builtin .tree⟩]

def files : List Command :=
  [⟨{ name := "touch", description := "Create empty file or update its timestamp"
      args := atLeast 1 }, .builtin .touch⟩,
    ⟨{ name := "mkdir", description := "Create directories"
       flags := [flag "parents" "-p" (some "--parents")]
       args := atLeast 1 (some "missing operand") }, .builtin .mkdir⟩,
    ⟨{ name := "rm", description := "Remove files or directories"
       flags := recursiveFlags ++ [flag "force" "-f" (some "--force")]
       args := atLeast 1 (some "missing operand") }, .builtin .rm⟩,
    ⟨{ name := "rmdir", description := "Remove empty directories"
       args := atLeast 1 (some "missing operand")
       paths := [{ select := .all, kind := some .directory, parentPermissions := [.write] }] },
      .builtin .rmdir⟩,
    ⟨{ name := "mv", description := "Move or rename files"
       args := exactly 2 (some "expects a source and destination")
       paths := [{ select := .index 0 }] }, .builtin .mv⟩,
    ⟨{ name := "cp", description := "Copy files and directories", flags := recursiveFlags
       args := exactly 2 (some "expects a source and destination")
       paths := [{ select := .index 0, permissions := [.read] }] }, .builtin .cp⟩,
    ⟨{ name := "chmod", description := "Change file mode (rwxr-x--- or 750)"
       args := exactly 2 (some "usage: chmod MODE FILE")
       paths := [{ select := .index 1, owned := true }] }, .builtin .chmod⟩,
    ⟨{ name := "chown", description := "Change file owner (root only)"
       args := exactly 2 (some "usage: chown OWNER FILE")
       paths := [{ select := .index 1 }] }, .builtin .chown⟩,
    ⟨{ name := "chgrp", description := "Change group ownership"
       args := exactly 2 (some "usage: chgrp GROUP FILE")
       paths := [{ select := .index 1, owned := true }] }, .builtin .chgrp⟩]

def texts : List Command :=
  [⟨{ name := "echo", description := "Print arguments", flags := [flag "no_newline" "-n"] },
      .builtin .echo⟩,
    ⟨{ name := "cat", description := "Concatenate files or standard input"
       paths := [readableFiles], readsInput := true }, .builtin .cat⟩,
    ⟨{ name := "wc", description := "Count lines, words and bytes"
       flags := [flag "lines" "-l" (some "--lines"), flag "words" "-w" (some "--words"),
         flag "bytes" "-c" (some "--bytes")]
       paths := [readableFiles], readsInput := true }, .builtin .wc⟩,
    ⟨{ name := "head", description := "Output the first part of files", flags := rangeFlags
       paths := [readableFiles], readsInput := true }, .builtin .head⟩,
    ⟨{ name := "tail", description := "Output the last part of files", flags := rangeFlags
       paths := [readableFiles], readsInput := true }, .builtin .tail⟩,
    ⟨{ name := "grep", description := "Print lines matching a pattern"
       flags := [flag "ignore_case" "-i" (some "--ignore-case"),
         flag "invert" "-v" (some "--invert-match"),
         flag "line_number" "-n" (some "--line-number"), flag "count" "-c" (some "--count")]
       args := atLeast 1 (some "usage: grep [-ivnc] PATTERN [FILE...]"), readsInput := true },
      .builtin .grep⟩,
    ⟨{ name := "sort", description := "Sort lines of text"
       flags := [flag "reverse" "-r" (some "--reverse"),
         flag "numeric" "-n" (some "--numeric-sort"), flag "unique" "-u" (some "--unique")]
       paths := [readableFiles], readsInput := true }, .builtin .sort⟩]

def environment : List Command :=
  [⟨{ name := "set", description := "Set or list environment variables" }, .builtin .set⟩,
    ⟨{ name := "unset", description := "Remove environment variables", args := atLeast 1 },
      .builtin .unset⟩,
    ⟨{ name := "env", description := "Print the environment", args := exactly 0 }, .builtin .env⟩,
    ⟨{ name := "alias", description := "Define or list aliases" }, .builtin .defineAlias⟩,
    ⟨{ name := "unalias", description := "Remove aliases", args := atLeast 1 },
      .builtin .unalias⟩]

def users : List Command :=
  [⟨{ name := "whoami", description := "Print the current user", args := exactly 0 },
      .builtin .whoami⟩,
    ⟨{ name := "su", description := "Switch user, keeping the previous session"
       args := atMost 2 }, .builtin .su⟩,
    ⟨{ name := "logout", description := "Return to the previous user session"
       args := exactly 0 }, .builtin .logout⟩,
    ⟨{ name := "login", description := "Start a fresh session as another user"
       args := between 1 2 }, .builtin .login⟩,
    ⟨{ name := "useradd", description := "Create a user and home directory"
       args := between 1 2 }, .builtin .useradd⟩,
    ⟨{ name := "groupadd", description := "Create a group", args := exactly 1 },
      .builtin .groupadd⟩,
    ⟨{ name := "usermod", description := "Add a user to a supplementary group"
       flags := [flag "append" "-a", { name := "group", short := some "-G", takesValue := true }]
       args := exactly 1 (some "usage: usermod -aG GROUP USER") }, .builtin .usermod⟩,
    ⟨{ name := "groups", description := "Print group memberships", args := atMost 1 },
      .builtin .groups⟩]

def jobs : List Command :=
  [⟨{ name := "ps", description := "List background jobs", args := exactly 0 }, .builtin .ps⟩,
    ⟨{ name := "kill", description := "Terminate a background job"
       args := exactly 1 (some "usage: kill JOB_ID") }, .builtin .kill⟩,
    ⟨{ name := "post_message", description := "Send a message to a background job"
       args := atLeast 2 (some "usage: post_message JOB_ID MESSAGE") }, .builtin .postMessage⟩,
    ⟨{ name := "read_messages", description := "Drain the current job's mailbox"
       args := exactly 0 }, .builtin .readMessages⟩,
    ⟨{ name := "sleep", description := "Pause for a number of seconds", args := exactly 1 },
      .wait 1⟩,
    ⟨{ name := "delay", description := "Pause for a number of milliseconds", args := exactly 1 },
      .wait 1000⟩]

def scripting : List Command :=
  [⟨{ name := "run", description := "Execute a script file", help := scriptHelp
      args := atLeast 1 (some "usage: run SCRIPT [ARGS...]")
      paths := [{ select := .index 0, kind := some .file, permissions := [.read, .execute] }] },
      .runScript⟩,
    ⟨{ name := "xargs", description := "Build and execute commands from standard input"
       flags := [{ name := "replace", short := some "-I", takesValue := true }]
       readsInput := true }, .fanOut⟩]

def general : List Command :=
  [⟨{ name := "help", description := "Show available commands", args := atMost 1 },
      .builtin .help⟩,
    ⟨{ name := "history", description := "Display or clear the command history"
       flags := [flag "clear" "-c" (some "--clear")], args := exactly 0 }, .builtin .history⟩,
    ⟨{ name := "true", description := "Do nothing, successfully" }, .builtin .yes⟩,
    ⟨{ name := "false", description := "Do nothing, unsuccessfully" }, .builtin .no⟩,
    ⟨{ name := "save", description := "Persist the file system now", args := exactly 0 },
      .builtin .save⟩]

def all : List Command :=
  navigation ++ files ++ texts ++ environment ++ users ++ jobs ++ scripting ++ general

def table : Table String Command := Table.ofList (all.map fun c => (c.contract.name, c))

end Catalogue
end MemShell
