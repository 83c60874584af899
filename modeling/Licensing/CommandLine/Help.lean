import Licensing.CommandLine.Command
import Licensing.Http.Endpoint

/-!
# Help

The texts that tell how the program and its commands are used, line by line.
-/

namespace Licensing.HelpTopic

/-- What a command does. -/
def summary : HelpTopic → String
  | program => "License Service API - license validation, lifecycle reconciliation and API key authentication"
  | serve => "Run the HTTP API server"
  | createKey => "Create an API key and print it once"
  | reconcile => "Expire overdue licenses once and print a summary"
  | help => "Print this message or the help of the given subcommand(s)"

/-- How a command is called. -/
def usage : HelpTopic → String
  | program => "Usage: license-service <COMMAND>"
  | serve => "Usage: license-service serve"
  | createKey => "Usage: license-service create-api-key [OPTIONS] --description <DESCRIPTION>"
  | reconcile => "Usage: license-service reconcile"
  | help => "Usage: license-service help [COMMAND]..."

/-- Two columns, the second in line. -/
def columns (rows : List (String × String)) : List String :=
  let width := (rows.map (·.1.length)).foldl max 0
  rows.map fun (left, right) ↦
    "  " ++ left ++ String.ofList (List.replicate (width - left.length + 2) ' ') ++ right

/-- The options of a command. -/
def options : HelpTopic → List (String × String)
  | program => [("-h, --help", "Print help"), ("-V, --version", "Print version")]
  | createKey => [
      ("    --description <DESCRIPTION>", "What the key is for"),
      ("    --product-id <PRODUCT_ID>", "Product the key is bound to"),
      ("-h, --help", "Print help")]
  | help => []
  | _ => [("-h, --help", "Print help")]

/-- The help on a topic. -/
def lines (topic : HelpTopic) : List String :=
  let listed := if topic = program then
      ["", "Commands:"] ++ columns (commands.map fun command ↦ (command.name, command.summary))
    else if topic = help then
      ["", "Arguments:", "  [COMMAND]...  Print help for the subcommand(s)"]
    else []
  let options := if topic = help then [] else ["", "Options:"] ++ columns topic.options
  [topic.summary, "", topic.usage] ++ listed ++ options

/-- The name and the version of the program. -/
def versionLine : String := "license-service " ++ Http.version

end Licensing.HelpTopic
