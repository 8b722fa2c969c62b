import BlockLoom.CommandLine.Arguments

/-!
What the program says about itself.
-/

namespace BlockLoom.CommandLine

/-- Lines with line breaks between them. -/
def joinLines (lines : List String) : String :=
  "\n".intercalate lines

def versionText : String := "mitosis 0.1.0"

def describeOption (long : Bool) (width : Nat) (option purpose : String) : String :=
  if long then option ++ "\n          " ++ purpose ++ "\n"
  else
    option ++ String.ofList (List.replicate (width - option.length) ' ') ++ "  " ++ purpose ++ "\n"

/-- Options one after another, with empty lines between long descriptions. -/
def describeOptions (long : Bool) (options : List (String × String)) : String :=
  let width := options.foldl (fun width option => max width option.1.length) 0
  "Options:\n" ++
    (if long then "\n" else "").intercalate
      (options.map fun option => describeOption long width option.1 option.2)

def helpOption (long : Bool) : String × String :=
  ("  -h, --help",
    if long then "Print help (see a summary with '-h')" else "Print help (see more with '--help')")

def programPurpose (long : Bool) : String :=
  if long then
    joinLines
      ["mitosis converts visual-builder content JSON to and from the Mitosis component IR.",
        "",
        "Extra Parameters:",
        "  Use --extra-<name> [value] to pass format-specific options.",
        "  Boolean flags can omit the value (defaults to 'true').",
        "",
        "Examples:",
        "  mitosis page.json --to mitosis-json              # Import builder content (stdout)",
        "  mitosis card.mitosis.json --to builder -o out.json",
        "  mitosis page.json --to builder --extra-pretty false"]
  else "Convert components between builder content and the Mitosis IR"

def programHelp (long : Bool) : String :=
  joinLines
    [programPurpose long,
      "",
      "Usage: mitosis [OPTIONS] [COMMAND]",
      "",
      "Commands:",
      "  convert  Convert between component formats (default command)",
      "  help     Print this message or the help of the given subcommand(s)",
      "",
      describeOptions long
        [("      --list-formats", "List available formats"),
          ("      --config <PATH>", "Path to a mitosis.toml configuration file"),
          helpOption long,
          ("  -V, --version", "Print version")]]

def convertPurpose (long : Bool) : String :=
  if long then
    joinLines
      ["Convert components between formats.",
        "",
        "Supported formats:",
        "  - builder:      Builder content JSON (.json)",
        "  - mitosis-json: Mitosis component IR (.mitosis.json)",
        "",
        "The source format is auto-detected from the file name.",
        "Output goes to stdout by default, or use -o to specify a file.",
        "",
        "Examples:",
        "  mitosis convert page.json --to mitosis-json",
        "  mitosis convert card.mitosis.json --to builder -o card.json",
        "  mitosis page.json --to mitosis-json            # 'convert' is optional"]
  else "Convert between component formats (default command)"

def convertHelp (long : Bool) : String :=
  joinLines
    [convertPurpose long,
      "",
      "Usage: mitosis convert [OPTIONS] --to <to> <input>",
      "",
      "Arguments:",
      describeOption long 9 "  <input>" "Input file path",
      describeOptions long
        [("      --from <from>",
            "Source format (auto-detected from file name if not specified)"),
          ("      --list-formats", "List available formats"),
          ("      --config <PATH>", "Path to a mitosis.toml configuration file"),
          ("      --to <to>",
            if long then
              joinLines
                ["Target format to convert to.",
                  "          ",
                  "          Available formats: builder, mitosis-json",
                  "          Use the format name, not the file extension."]
            else "Target format (required)"),
          ("  -o, --output <output>", "Output file path (defaults to stdout)"),
          helpOption long]]

def helpText (topic : Topic) (long : Bool) : String :=
  match topic with
  | .program => programHelp long
  | .convert => convertHelp long

end BlockLoom.CommandLine
