import ConfigGraft.CommandLine.Reader

/-!
# Information about the command line

The texts that a caller gets who asks for help or for the version, or whose arguments are wrong.
-/

namespace ConfigGraft.CommandLine

/-- The name and version of the program. -/
def versionText : String := "config-injector 0.2.1\n"

/-- What the program does, and the arguments that it takes. -/
def helpText : String :=
  "Apply configured value changes to YAML, JSON, TOML and properties files\n\n" ++
  "Usage: config-injector [OPTIONS] [COMMAND]\n\n" ++
  "Commands:\n" ++
  "  apply  Apply the change-set (default if no subcommand given)\n" ++
  "  check  Report missing variables without touching any file\n" ++
  "  help   Print this message or the help of the given subcommand(s)\n\n" ++
  "Options:\n" ++
  "  -c, --config <CONFIG>              Path to the master configuration file\n" ++
  "  -b, --base-dir <BASE_DIR>          Directory that target files are resolved against\n" ++
  "  -e, --env-file <ENV_FILE>          Variable file (overrides the configured one)\n" ++
  "      --no-stop-on-missing-required  Report missing required variables without failing\n" ++
  "      --stop-on-error                Treat file, format and I/O errors as fatal\n" ++
  "      --create-missing               Create target files that do not exist yet\n" ++
  "  -v, --verbose                      Enable verbose logging\n" ++
  "  -l, --log <LOG>                    0/off, 1/stdout, 2/stderr (default), or filename\n" ++
  "  -h, --help                         Print help\n" ++
  "  -V, --version                      Print version\n"

/-- What is wrong with arguments, in words. -/
def Misuse.message : Misuse → String
  | .unknownArgument => "unexpected argument found"
  | .unknownCommand => "unrecognized subcommand"
  | .invalidValue => "a value is required for an argument but none was supplied"
  | .valueForSwitch => "unexpected value for an argument that takes none"
  | .repeated => "an argument cannot be used multiple times"

end ConfigGraft.CommandLine
