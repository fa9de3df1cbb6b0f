import Engagement.CommandLine.Arguments

/-! # Help texts -/

namespace Engagement

namespace Topic

def lines : Topic → List String
  | .program =>
    ["Replay analytics events through the journey engine", "",
     "Usage: journey-runner [OPTIONS] <COMMAND>", "", "Commands:",
     "  run       Replay an event script and print the resulting journeys",
     "  validate  Check campaign definitions without running them",
     "  inspect   Print the contents of a journey store file",
     "  help      Print this message or the help of the given subcommand(s)", "", "Options:",
     "      --config <CONFIG>  TOML configuration file (environment variables still apply) " ++
       "[env: JOURNEY_RUNNER_CONFIG=]",
     "  -h, --help             Print help", "  -V, --version          Print version"]
  | .run =>
    ["Replay an event script and print the resulting journeys", "",
     "Usage: journey-runner run [OPTIONS] --campaigns <CAMPAIGNS> --events <EVENTS>", "",
     "Options:",
     "      --campaigns <CAMPAIGNS>      JSON array of campaign definitions",
     "      --events <EVENTS>            JSON array of tracked events",
     "      --distinct-id <DISTINCT_ID>  User for events that don't name one " ++
       "[env: JOURNEY_RUNNER_DISTINCT_ID=] [default: user-1]",
     "      --segments <SEGMENTS>        Segments the user belongs to",
     "      --store <STORE>              Journey store file (overrides config)",
     "  -h, --help                       Print help"]
  | .validate =>
    ["Check campaign definitions without running them", "",
     "Usage: journey-runner validate --campaigns <CAMPAIGNS>", "", "Options:",
     "      --campaigns <CAMPAIGNS>  ", "  -h, --help                   Print help"]
  | .inspect =>
    ["Print the contents of a journey store file", "",
     "Usage: journey-runner inspect [OPTIONS]", "", "Options:",
     "      --store <STORE>  ", "  -h, --help           Print help"]
  | .help =>
    ["Print this message or the help of the given subcommand(s)", "",
     "Usage: journey-runner help [COMMAND]...", "", "Arguments:",
     "  [COMMAND]...  Print help for the subcommand(s)"]

def text (topic : Topic) : String := String.join (topic.lines.map (· ++ "\n"))

end Topic

end Engagement
