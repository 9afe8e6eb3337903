/-!
# The help of the program

What the program prints when it is asked for help, or given nothing to do, and its version.
-/

namespace BackupReport

/-- The lines of the help. -/
def helpLines : List String :=
  ["snapstat - Extract statistics from backup tool output",
    "",
    "USAGE:",
    "    snapstat backup --output <FILE> --snapshot <PATH>=<FILE>... [OPTIONS]",
    "    snapstat restore --output <FILE> [OPTIONS]",
    "    snapstat show <FILE> [--restore] [--json]",
    "",
    "COMMANDS:",
    "    backup    Build a backup output file from captured command output",
    "    restore   Write a restore output file for one host",
    "    show      Print a previously written output file",
    "",
    "GLOBAL OPTIONS:",
    "    -h, --help                 Show this help message",
    "    -v, --version              Show version information",
    "",
    "BACKUP OPTIONS:",
    "    --output <FILE>           Where to write the JSON output (required)",
    "    --snapshot <PATH>=<FILE>  Backup output captured for a source path (repeatable)",
    "    --host <NAME>             Host name (default: $HOSTNAME or host-0)",
    "    --duration <SECS>         Total backup duration for the host",
    "    --forget <FILE>           Captured output of the forget command",
    "    --check <FILE>            Captured output of the check command",
    "    --stats <FILE>            Captured output of the stats command",
    "",
    "RESTORE OPTIONS:",
    "    --output <FILE>           Where to write the JSON output (required)",
    "    --host <NAME>             Host name (default: $HOSTNAME or host-0)",
    "    --duration <SECS>         Restore duration",
    "    --error <MSG>             Mark the restore as failed with this message",
    "",
    "EXIT CODES:",
    "    0  success    2  usage error    3  a host failed    4  I/O or decode error"]

/-- The line of the version. -/
def versionLine : String := "snapstat 0.1.0"

end BackupReport
